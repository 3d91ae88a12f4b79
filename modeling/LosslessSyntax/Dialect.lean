import LosslessSyntax.Text.Blank
/-!
The two dialects of the grammar. The extended one adds three liberties to the canonical one.
-/
namespace LosslessSyntax

inductive Dialect where
  | canonical
  | extended
deriving DecidableEq, Repr, Inhabited

namespace Dialect

def allowsUninitializedLet (dialect : Dialect) : Bool := dialect == .extended

def allowsLambdas (dialect : Dialect) : Bool := dialect == .extended

def allowsIdentifierStructNames (dialect : Dialect) : Bool := dialect == .extended

def name : Dialect → String
  | .canonical => "canonical"
  | .extended => "extended"

def ofName? (name : String) : Option Dialect :=
  if name = "canonical" then some .canonical
  else if name = "extended" then some .extended
  else none

/-- Text in which a dialect is looked up: without outer white space and in ASCII lower case. -/
def normalize (text : String) : String :=
  String.ofList ((Text.trim text.toList).map Char.toLower)

def parse (text : String) : Except String Dialect :=
  let key := normalize text
  match ofName? key with
  | some dialect => .ok dialect
  | none => .error (s!"unknown dialect `{key}`, expected `canonical` or `extended`")

theorem ofName?_name (dialect : Dialect) : ofName? dialect.name = some dialect := by
  cases dialect <;> simp [ofName?, name]

end Dialect

end LosslessSyntax
