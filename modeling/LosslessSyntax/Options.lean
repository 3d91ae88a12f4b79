import LosslessSyntax.Dialect
import LosslessSyntax.Json
import LosslessSyntax.Json.Reader
/-!
Parse options and their JSON form: an object whose member `dialect` names the dialect, or an array
that holds the dialect alone. Without a dialect it is the canonical one. Other members are
ignored.
-/
namespace LosslessSyntax

structure Options where
  dialect : Dialect
deriving DecidableEq, Repr

namespace Options

open JsonReader

def after? (c : Char) (text : List Char) : Option (List Char) :=
  match skipBlanks text with
  | d :: rest => if d = c then some rest else none
  | [] => none

def dialectName? (text : List Char) : Option (Dialect × List Char) := do
  let (name, rest) ← string? (skipBlanks text)
  let dialect ← Dialect.ofName? name
  return (dialect, rest)

/-- A dialect: its name, or an object whose one member is called by the name and is null. -/
def dialect? (text : List Char) : Option (Dialect × List Char) :=
  match after? '\x7b' text with
  | none => dialectName? text
  | some text => do
    let (dialect, rest) ← dialectName? text
    let rest ← after? ':' rest
    let rest ← skipWord? ['n', 'u', 'l', 'l'] (skipBlanks rest)
    let rest ← after? '\x7d' rest
    return (dialect, rest)

/-- The members of an object from the name of one of them on, given the dialect found before. A
second dialect is an error. Each round takes a character, so the length of the text is fuel
enough. -/
def members? : Nat → Option Dialect → List Char → Option (Option Dialect × List Char)
  | 0, _, _ => none
  | fuel + 1, found, text => do
    let (name, rest) ← string? (skipBlanks text)
    let rest ← after? ':' rest
    let (found, rest) ←
      if name = "dialect" then
        if found.isSome then none
        else (dialect? rest).map fun (dialect, rest) => (some dialect, rest)
      else (skip? rest).map fun rest => (found, rest)
    match after? '\x7d' rest with
    | some rest => return (found, rest)
    | none => members? fuel found (← after? ',' rest)

def object? (text : List Char) : Option (Option Dialect × List Char) :=
  match after? '\x7d' text with
  | some rest => some (none, rest)
  | none => members? text.length none text

def array? (text : List Char) : Option (Option Dialect × List Char) :=
  match after? ']' text with
  | some rest => some (none, rest)
  | none => do
    let (dialect, rest) ← dialect? text
    let rest ← after? ']' rest
    return (some dialect, rest)

def ofJson? (json : String) : Option Options := do
  let (dialect, rest) ←
    match after? '[' json.toList with
    | some text => array? text
    | none => do object? (← after? '\x7b' json.toList)
  if skipBlanks rest = [] then some ⟨dialect.getD .canonical⟩ else none

def toJson (options : Options) : Json := .ofMembers [("dialect", .string options.dialect.name)]

end Options

end LosslessSyntax
