import LosslessSyntax.Edit
import LosslessSyntax.Token.Lexer
/-!
Incremental lexing: tokens that the changed range cannot have touched are kept, the lexer starts
again behind them, and it stops at the start of an old token past the range.
-/
namespace LosslessSyntax

namespace Relex

/-- The old tokens that were settled without a look at the changed range. -/
def kept (old : List Token) (range : ChangedRange) : List Token :=
  old.takeWhile fun token => token.kind != .eof && decide (token.lookaheadEnd < range.start)

def tailAt? (old : List Token) (start : UInt32) : Option (List Token) :=
  match old.dropWhile fun token => token.span.start != start with
  | [] => none
  | tail => some tail

/-- Fresh tokens up to the first one past the range at whose place an old token starts, and from
there on the old ones, moved. -/
def splice (old : List Token) (range : ChangedRange) : List Token → List Token
  | [] => []
  | token :: rest =>
    let tail? :=
      if token.span.start.toNat < range.newEnd then none
      else tailAt? old (Span.moveOffset token.span.start (-range.delta))
    match tail? with
    | some tail => tail.map (·.shifted range.delta)
    | none => token :: splice old range rest

end Relex

/-- The tokens of a source, given those of the source before the change, without white space and
comments. -/
def relex (source : String) (old : List Token) (range : ChangedRange) : List Token :=
  let kept := Relex.kept old range
  let restart := (kept.getLast?.map (·.span.stop.toNat)).getD 0
  kept ++ Relex.splice old range (significantTokens (Lexer.startingAt source restart).tokens)

end LosslessSyntax
