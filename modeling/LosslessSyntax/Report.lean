import LosslessSyntax.Diagnostic
import LosslessSyntax.Text.Blank
/-!
Reports: a diagnostic with the line of the source that it is about and a caret below that line.
-/
namespace LosslessSyntax

/-- A line of a text, with its line break, and a byte offset within it. -/
structure Location where
  /-- Counted from one. -/
  line : Nat
  text : List Char
  column : Nat
deriving DecidableEq, Repr

/-- The lines of a text, each with its line break. Behind the last line break there is a line
only if there is text. -/
def splitLines : List Char → List (List Char)
  | [] => []
  | c :: rest =>
    if c = '\n' then [c] :: splitLines rest
    else
      match splitLines rest with
      | [] => [[c]]
      | line :: lines => (c :: line) :: lines

def locateIn (number start offset : Nat) : List (List Char) → Option Location
  | [] => none
  | line :: lines =>
    let stop := start + Text.byteLength line
    if start ≤ offset ∧ offset < stop then some ⟨number, line, offset - start⟩
    else locateIn (number + 1) stop offset lines

def splitLastLine (text : List Char) : List Char × List Char :=
  ((text.reverse.dropWhile (· ≠ '\n')).reverse, (text.reverse.takeWhile (· ≠ '\n')).reverse)

/-- The end of a text. It belongs to the last line, which is empty behind a line break. -/
def locateEnd (text : List Char) : Location :=
  let (above, line) := splitLastLine text
  ⟨above.count '\n' + 1, line, Text.byteLength text - Text.byteLength above⟩

def lineAt? (source : String) (offset : UInt32) : Option Location :=
  let text := source.toList
  match locateIn 1 0 offset.toNat (splitLines text) with
  | some location => some location
  | none => if offset.toNat = Text.byteLength text then some (locateEnd text) else none

def padLeft (fill : Char) (width : Nat) (text : String) : String :=
  String.ofList (List.replicate (width - text.length) fill) ++ text

namespace Diagnostic

def headline (diagnostic : Diagnostic) : String :=
  "Error: " ++ diagnostic.cause.name ++
    (match diagnostic.cause.tip? with
    | none => ""
    | some tip => " (" ++ tip ++ ")") ++ "\n"

/-- The line without its indentation and trailing white space, and a caret below the column. -/
def excerpt (location : Location) : String :=
  let number := toString location.line
  let bar := padLeft ' ' (number.length + 2) "|"
  let text := location.text.dropWhile (· = ' ')
  let removed := location.text.length - text.length
  bar ++ "\n" ++
    number ++ " | " ++ String.ofList (Text.trimEnd text) ++ "\n" ++
    bar ++ " " ++ padLeft '-' (location.column - removed + 1) "^" ++ "\n"

def render (diagnostic : Diagnostic) (source file : String) : String :=
  diagnostic.headline ++ "-> " ++ file ++ "\n" ++
    (match lineAt? source diagnostic.span.start with
    | none => ""
    | some location => excerpt location)

end Diagnostic

end LosslessSyntax
