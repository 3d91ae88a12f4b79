/-!
Escape sequences of string and character literals: which there are, what they stand for, and the
first one of a literal that is not supported.
-/
namespace LosslessSyntax.Text

def escaped? : Char → Option Char
  | 'n' => some '\n'
  | 't' => some '\t'
  | 'r' => some '\r'
  | '"' => some '"'
  | '\'' => some '\''
  | '\\' => some '\\'
  | '0' => some '\x00'
  | _ => none

/-- Decodes the body of a literal. A backslash that starts no supported escape stands for itself.
-/
def unescape : List Char → List Char
  | [] => []
  | [c] => [c]
  | c :: d :: rest =>
    if c = '\\' then
      match escaped? d with
      | some e => e :: unescape rest
      | none => c :: unescape (d :: rest)
    else c :: unescape (d :: rest)

/-- The first unsupported escape of a literal, reading a backslash and what follows it as a pair.
A literal without one gives a lone backslash. -/
def firstInvalidEscape : List Char → List Char
  | [] => ['\\']
  | [_] => ['\\']
  | c :: d :: rest =>
    if c = '\\' then
      if (escaped? d).isSome then firstInvalidEscape rest else ['\\', d]
    else firstInvalidEscape (d :: rest)

end LosslessSyntax.Text
