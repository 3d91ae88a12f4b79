import LosslessSyntax.Schema
/-!
Conformance of a tree to the schema. Error nodes fit everywhere and are not looked into.
-/
namespace LosslessSyntax

/-- How a node breaks the schema. Parents, slots and kinds are given by their texts. -/
inductive Violation where
  | unknownKind (kind : String)
  | unknownField (parent field : String)
  | missing (parent slot : String)
  | repeated (parent slot : String)
  | unexpectedType (parent slot found : String)
deriving DecidableEq, Repr

def Violation.message : Violation → String
  | .unknownKind kind => "no schema entry for " ++ Text.quoted kind
  | .unknownField parent field => s!"{parent} has no field " ++ Text.quoted field
  | .missing parent slot => s!"{parent} is missing required {slot}"
  | .repeated parent slot => s!"{parent} holds more than one {slot}"
  | .unexpectedType parent slot found => s!"{parent} cannot hold {found} in {slot}"

namespace Slot

def check (slot : Slot) (parent name : String) (nodes : List Node) : Except Violation Unit :=
  if 1 < nodes.length ∧ !slot.multiple then .error (.repeated parent name)
  else if nodes = [] ∧ slot.required then .error (.missing parent name)
  else match nodes.find? fun node => !slot.allows node.kind with
    | some node => .error (.unexpectedType parent name node.kind.name)
    | none => .ok ()

end Slot

namespace Node

def looseChildren (node : Node) : List Node :=
  node.children.filter fun child => child.field.isNone && child.kind.isNamed

def checkFields (node : Node) (type : NodeType) : Except Violation Unit :=
  node.fields.forM fun (field, nodes) =>
    match type.fields.lookup field with
    | some slot => slot.check node.kind.name field.text nodes
    | none => .error (.unknownField node.kind.name field.text)

def checkRequired (node : Node) (type : NodeType) : Except Violation Unit :=
  type.fields.forM fun (field, slot) =>
    if slot.required && node.childrenByField field == [] then
      .error (.missing node.kind.name field.text)
    else .ok ()

/-- The children in no slot. Where an entry has no place for them only errors may stand. -/
def checkLoose (node : Node) (type : NodeType) : Except Violation Unit :=
  match type.children with
  | some slot => slot.check node.kind.name "children" node.looseChildren
  | none =>
    match node.looseChildren.find? fun child => !child.isError with
    | some child => .error (.unexpectedType node.kind.name "children" child.kind.name)
    | none => .ok ()

def checkHere (node : Node) : Except Violation Unit :=
  match Schema.entry? node.kind with
  | none => .error (.unknownKind node.kind.name)
  | some type => do
    node.checkFields type
    node.checkRequired type
    node.checkLoose type

mutual

/-- The node and all below it that no error node or unnamed leaf hides. -/
def check : Node → Except Violation Unit
  | ⟨field, kind, span, children, diagnostic⟩ =>
    if kind == .error || !kind.isNamed then .ok ()
    else do
      checkHere ⟨field, kind, span, children, diagnostic⟩
      checkAll children

def checkAll : List Node → Except Violation Unit
  | [] => .ok ()
  | node :: rest => do
    check node
    checkAll rest

end

end Node

end LosslessSyntax
