import LosslessSyntax.Json
import LosslessSyntax.Node
/-!
Nodes and diagnostics as JSON. Members come in a fixed order, and those that would be empty are
left out.
-/
namespace LosslessSyntax

def Span.toJson (span : Span) : Json :=
  .ofMembers [("start", .number span.start.toNat), ("end", .number span.stop.toNat)]

/-- A cause without fields is its name, any other an object whose one member is called by the
name. -/
def Cause.toJson (cause : Cause) : Json :=
  match cause.details with
  | [] => .string cause.name
  | details =>
    .ofMembers [(cause.name, .ofMembers (details.map fun (name, value) =>
      (name, match value with
        | .inl text => .string text
        | .inr number => .number number)))]

def Diagnostic.toJson (diagnostic : Diagnostic) : Json :=
  .ofMembers [("internal_error", diagnostic.cause.toJson), ("span", diagnostic.span.toJson)]

namespace Node

mutual

def toJson : Node → Json
  | ⟨_, kind, span, children, diagnostic⟩ =>
    .ofMembers ([("kind", .string kind.name), ("span", span.toJson)] ++
      (if children.isEmpty then [] else [("children", .array (toJsonAll children))]) ++
      (diagnostic.map fun diagnostic => ("diagnostic", diagnostic.toJson)).toList)

def toJsonAll : List Node → List Json
  | [] => []
  | node :: rest =>
    .ofMembers ((node.field.map fun field => ("field", .string field.text)).toList ++
      [("node", toJson node)]) :: toJsonAll rest

end

end Node

end LosslessSyntax
