import LosslessSyntax.Span
import LosslessSyntax.Token.Kind
/-!
Tokens: a kind, a value and a span. The value is the text of the token, decoded for literals.
-/
namespace LosslessSyntax

structure Token where
  kind : TokenKind
  value : String
  span : Span
deriving DecidableEq, Repr, Inhabited

namespace Token

def endOfFile (offset : Nat) : Token := ⟨.eof, "EOF", .ofOffsets offset offset⟩

def shifted (token : Token) (distance : Int) : Token :=
  { token with span := token.span.shifted distance }

/-- Bytes past the end of a token that may have been inspected before it was settled: a number
suffix, a character literal, a long character. -/
def lookaheadSlack : Nat := 16

/-- A string that did not close was scanned for its closing quote to the end of the source. -/
def scansToEnd (token : Token) : Bool :=
  match token.kind with
  | .error .unterminatedString | .error .invalidEscape => token.value.toList.head? == some '"'
  | _ => false

/-- The last offset whose contents can have a say in what this token is. -/
def lookaheadEnd (token : Token) : Nat :=
  if token.scansToEnd then maxSourceLength
  else min (token.span.stop.toNat + lookaheadSlack) maxSourceLength

def display (token : Token) : String :=
  "Token \x7b\nkind: " ++ token.kind.text ++ ",\nvalue: " ++ token.value ++ "\x7d"

/-- One line of a token listing. Only names, numbers and strings show their value. -/
def summary (token : Token) : String :=
  match token.kind with
  | .string | .identifier | .typeIdentifier | .number => s!"{token.kind.text} ({token.value})"
  | kind => kind.text ++ " ()"

@[simp] theorem shifted_kind (token : Token) (distance : Int) :
    (token.shifted distance).kind = token.kind := rfl

@[simp] theorem shifted_span (token : Token) (distance : Int) :
    (token.shifted distance).span = token.span.shifted distance := rfl

@[simp] theorem shifted_value (token : Token) (distance : Int) :
    (token.shifted distance).value = token.value := rfl

end Token

end LosslessSyntax
