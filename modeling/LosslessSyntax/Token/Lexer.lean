import LosslessSyntax.Token
import LosslessSyntax.Token.Lexeme
/-!
The lexer: a place in a source from which tokens are read one by one. It never fails, since what
is no proper lexeme becomes an error token, and it ends with one end-of-file token.
-/
namespace LosslessSyntax

structure Lexer where
  offset : Nat
  rest : List Char
  finished : Bool
deriving DecidableEq, Repr

namespace Lexer

/-- At the first place not before `offset` where a character begins, or at the end. -/
def startingAt (source : String) (offset : Nat) : Lexer :=
  let rest := Text.skipBytes offset source.toList
  ⟨Text.byteLength source.toList - Text.byteLength rest, rest, false⟩

def atEnd (lexer : Lexer) : Bool := lexer.rest.isEmpty

def next? (lexer : Lexer) : Option (Token × Lexer) :=
  if lexer.finished then none
  else match lexer.rest with
    | [] => some (.endOfFile lexer.offset, { lexer with finished := true })
    | c :: rest =>
      let lexeme := Lexeme.first c rest
      let stop := lexer.offset + Text.byteLength lexeme.text
      some (⟨lexeme.kind, String.ofList lexeme.value, .ofOffsets lexer.offset stop⟩,
        { lexer with offset := stop, rest := (c :: rest).drop lexeme.text.length })

def take (lexer : Lexer) : Nat → List Token
  | 0 => []
  | fuel + 1 =>
    match lexer.next? with
    | none => []
    | some (token, lexer) => token :: lexer.take fuel

/-- All tokens that are left. Each one takes a character at least, and the end of file takes one
step more. -/
def tokens (lexer : Lexer) : List Token := lexer.take (lexer.rest.length + 1)

end Lexer

def tokenize (source : String) : List Token := (Lexer.startingAt source 0).tokens

def significantTokens (tokens : List Token) : List Token :=
  tokens.filter fun token => !token.kind.isExtra

def tokenizeSignificant (source : String) : List Token := significantTokens (tokenize source)

end LosslessSyntax
