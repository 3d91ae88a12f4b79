import LosslessSyntax.Text.Blank
import LosslessSyntax.Text.Escape
import LosslessSyntax.Token.Kind
/-!
Lexemes: how the piece of text at the front of a source is recognised. The rules are tried in
order and the first one that applies wins, so longer spellings come before those they extend.
-/
namespace LosslessSyntax

structure Lexeme where
  kind : TokenKind
  text : List Char
  value : List Char
deriving DecidableEq, Repr

namespace Lexeme

/-- A rule gives the lexeme at the front of a text, if it applies there. -/
abbrev Rule := List Char → Option Lexeme

def plain (kind : TokenKind) (text : List Char) : Lexeme := ⟨kind, text, text⟩

def isLower (c : Char) : Bool := 'a' ≤ c && c ≤ 'z'

def isUpper (c : Char) : Bool := 'A' ≤ c && c ≤ 'Z'

def isDigit (c : Char) : Bool := '0' ≤ c && c ≤ '9'

def isWordPart (c : Char) : Bool := isLower c || isUpper c || isDigit c || c == '_'

def many? (p : Char → Bool) (text : List Char) : Option (List Char) :=
  match text.takeWhile p with
  | [] => none
  | run => some run

def word? (first rest : Char → Bool) : List Char → Option (List Char)
  | c :: text => if first c then some (c :: text.takeWhile rest) else none
  | [] => none

def whitespace : Rule := fun text => (many? Text.isBlank text).map (plain .whitespace)

def comment : Rule
  | '/' :: '/' :: text => some (plain .comment ('/' :: '/' :: text.takeWhile (· != '\n')))
  | _ => none

/-- The body of a string up to its closing quote, if every backslash in it is followed by a
character that `escapes` admits. -/
def stringBody? (escapes : Char → Bool) : List Char → Option (List Char)
  | [] => none
  | [c] => if c == '"' then some [] else none
  | c :: d :: text =>
    if c == '"' then some []
    else if c == '\\' then
      if escapes d then (stringBody? escapes text).map (c :: d :: ·) else none
    else (stringBody? escapes (d :: text)).map (c :: ·)

def isEscape (c : Char) : Bool := (Text.escaped? c).isSome

def string : Rule
  | '"' :: text => (stringBody? isEscape text).map fun body =>
      ⟨.string, '"' :: body ++ ['"'], Text.unescape body⟩
  | _ => none

/-- A closed string with any escapes but a backslash before a line break. -/
def stringWithInvalidEscape : Rule
  | '"' :: text => (stringBody? (· != '\n') text).map fun body =>
      plain (.error .invalidEscape) ('"' :: body ++ ['"'])
  | _ => none

def unterminatedString : Rule
  | '"' :: text => some (plain (.error .unterminatedString) ('"' :: text.takeWhile (· != '\n')))
  | _ => none

/-- Splits off the opening of a character literal: its kind and the text before and after the
opening. -/
def charOpening? : List Char → Option (TokenKind × List Char × List Char)
  | 'b' :: '\'' :: text => some (.byteChar, ['b', '\''], text)
  | '\'' :: text => some (.char, ['\''], text)
  | _ => none

def charBody? : List Char → Option (List Char)
  | '\\' :: c :: '\'' :: _ => if isEscape c then some ['\\', c] else none
  | c :: '\'' :: _ => if c == '\'' || c == '\\' then none else some [c]
  | _ => none

def char : Rule := fun text => do
  let (kind, opening, rest) ← charOpening? text
  let body ← charBody? rest
  return ⟨kind, opening ++ body ++ ['\''], Text.unescape body⟩

/-- A closed character literal that holds a backslash and some character of the same line. -/
def charWithInvalidEscape : Rule := fun text => do
  let (_, opening, rest) ← charOpening? text
  match rest with
  | '\\' :: c :: '\'' :: _ =>
    if c == '\n' then none else some (plain (.error .invalidEscape) (opening ++ ['\\', c, '\'']))
  | _ => none

def unterminatedChar : Rule := fun text =>
  (charOpening? text).map fun (_, opening, _) => plain (.error .unterminatedChar) opening

def directive : Rule
  | '#' :: text => (word? isLower isWordPart text).map fun name => plain .directive ('#' :: name)
  | _ => none

def radixNumber (letter : Char) (digit : Char → Bool) : Rule
  | '0' :: c :: text =>
    if c == letter then
      (many? (fun c => digit c || c == '_') text).map fun digits =>
        plain .number ('0' :: letter :: digits)
    else none
  | _ => none

/-- The type names that may end a decimal number. -/
def numberSuffixes : List (List Char) :=
  [['i', '8'], ['i', '1', '6'], ['i', '3', '2'], ['i', '6', '4'], ['i', 's', 'i', 'z', 'e'],
    ['u', '8'], ['u', '1', '6'], ['u', '3', '2'], ['u', '6', '4'], ['u', 's', 'i', 'z', 'e']]

/-- A decimal number and the type name that directly follows it, if one does. -/
def decimalNumber : Rule := fun text => do
  let digits ← word? isDigit (fun c => isDigit c || c == '_') text
  let rest := text.drop digits.length
  let suffix := (numberSuffixes.find? fun name => name.isPrefixOf rest).getD []
  return plain .number (digits ++ suffix)

def isHexDigit (c : Char) : Bool := isDigit c || ('a' ≤ c && c ≤ 'f') || ('A' ≤ c && c ≤ 'F')

def number : Rule := fun text =>
  radixNumber 'x' isHexDigit text <|>
  radixNumber 'b' (fun c => c == '0' || c == '1') text <|>
  radixNumber 'o' (fun c => '0' ≤ c && c ≤ '7') text <|>
  decimalNumber text

def lowerWord : Rule := fun text =>
  (word? (fun c => isLower c || c == '_') isWordPart text).map fun name =>
    plain ((TokenKind.ofReserved? (String.ofList name)).getD .identifier) name

def upperWord : Rule := fun text =>
  (word? isUpper isWordPart text).map (plain .typeIdentifier)

/-- Operators and punctuation. A spelling comes before those that it begins with. -/
def operators : List TokenKind :=
  [.dotDot, .dot, .questionDot, .questionQuestion, .question, .fatArrow, .equals, .assignment,
    .plusEquals, .plus, .notEquals, .bang, .lessEquals, .less, .greaterEquals, .greater,
    .openParen, .closeParen, .openCurly, .closeCurly, .openBracket, .closeBracket, .comma,
    .colon, .semicolon, .dollar, .dash, .star, .slash, .percent, .ampersand, .pipe, .caret]

def operator (kind : TokenKind) : Rule := fun text =>
  let spelling := kind.text.toList
  if spelling.isPrefixOf text then some (plain kind spelling) else none

/-- All rules, in the order in which they are tried. -/
def rules : List Rule :=
  [whitespace, comment, string, stringWithInvalidEscape, unterminatedString, char,
    charWithInvalidEscape, unterminatedChar, directive, number, lowerWord, upperWord] ++
    operators.map operator

/-- The lexeme at the front of `c :: rest`. A character that no rule begins with is one by itself.
-/
def first (c : Char) (rest : List Char) : Lexeme :=
  (rules.findSome? (· (c :: rest))).getD (plain (.error .unrecognisedCharacter) [c])

end Lexeme

end LosslessSyntax
