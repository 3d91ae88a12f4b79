import LosslessSyntax.Proofs.Conformance
/-!
What the extended dialect adds to the trees. The forms of the canonical dialect have no place for
it, so no canonical tree has it anywhere, while the schema, which the dialects share, takes it all.
-/
namespace LosslessSyntax

open Node (Throughout)
open Text (byteLength)

/-- The constructs that only the extended dialect has. -/
inductive Extension where
  | lambda
  | uninitializedLet
  | namedStruct
  | namedLiteral
deriving DecidableEq, Repr

namespace Extension

def all : List Extension := [lambda, uninitializedLet, namedStruct, namedLiteral]

theorem mem_all (extension : Extension) : extension ∈ all := by
  cases extension <;> decide

/-- Whether a node is a construct of the extended dialect. A struct, or a literal of one, is such a
construct if a plain identifier names it. -/
def Marks : Extension → Node → Prop
  | .lambda, node => node.kind = .lambdaExpression
  | .uninitializedLet, node => node.kind = .letStatement ∧ node.childrenByField .value = []
  | .namedStruct, node =>
    node.kind = .structDefinition ∧ ∃ name ∈ node.childrenByField .name, name.kind = .identifier
  | .namedLiteral, node =>
    node.kind = .structLiteral ∧ ∃ name ∈ node.childrenByField .name, name.kind = .identifier

instance (extension : Extension) (node : Node) : Decidable (extension.Marks node) := by
  cases extension <;> unfold Marks <;> infer_instance

end Extension

namespace NodeKind

theorem forms_letStatement :
    ∀ form ∈ forms .canonical .letStatement, form.certain (Part.isIn .value) := by
  decide

theorem forms_named : ∀ kind ∈ [structDefinition, structLiteral], ∀ form ∈ forms .canonical kind,
    form.restricts (Part.isIn .name) fun part => part.kind != .identifier := by
  decide

end NodeKind

namespace Node.Formed

variable {node : Node}

theorem value_ne_nil (h : node.Formed .canonical) (hkind : node.kind = .letStatement) :
    node.childrenByField .value ≠ [] := by
  obtain ⟨form, hform, hfits⟩ := h.resolve_left (by simp [hkind])
  rw [hkind] at hform
  have hvalue := hfits.filter_ne_nil (NodeKind.forms_letStatement form hform)
  intro hnil
  apply hvalue
  rw [List.filter_map, List.map_eq_nil_iff]
  exact hnil

theorem name_ne_identifier (h : node.Formed .canonical)
    (hkind : node.kind ∈ [NodeKind.structDefinition, NodeKind.structLiteral]) :
    ∀ name ∈ node.childrenByField .name, name.kind ≠ .identifier := by
  have herror : node.kind ≠ .error := by
    intro herror
    simp [herror] at hkind
  obtain ⟨form, hform, hfits⟩ := h.resolve_left herror
  intro name hname
  obtain ⟨hmem, hfield⟩ := List.mem_filter.mp hname
  have hpart := hfits.restricted (NodeKind.forms_named node.kind hkind form hform) name.part
    (List.mem_map_of_mem hmem) hfield
  exact bne_iff_ne.mp hpart

theorem not_marks (h : node.Formed .canonical) (extension : Extension) :
    ¬extension.Marks node := by
  intro hmarks
  cases extension with
  | lambda =>
    have hkind : node.kind = .lambdaExpression := hmarks
    obtain ⟨form, hform, -⟩ := h.resolve_left (by simp [hkind])
    rw [hkind] at hform
    exact absurd hform (List.not_mem_nil)
  | uninitializedLet => exact h.value_ne_nil hmarks.1 hmarks.2
  | namedStruct =>
    obtain ⟨hkind, name, hname, hidentifier⟩ := hmarks
    exact h.name_ne_identifier (by simp [hkind]) name hname hidentifier
  | namedLiteral =>
    obtain ⟨hkind, name, hname, hidentifier⟩ := hmarks
    exact h.name_ne_identifier (by simp [hkind]) name hname hidentifier

end Node.Formed

namespace SyntaxTree

theorem exists_marks (extension : Extension) :
    ∃ source tree, parse source .extended = .ok tree ∧ tree.hasErrors = false ∧
      tree.root.check = .ok () ∧ ∃ node ∈ tree.root.preorder, extension.Marks node := by
  have hall : ∃ tree,
      parse "struct s \x7b\x7d fn f() \x7b let x let g = fn() \x7b\x7d s \x7b\x7d \x7d" .extended =
          .ok tree ∧
        tree.hasErrors = false ∧ tree.root.check = .ok () ∧
        ∀ extension ∈ Extension.all, ∃ node ∈ tree.root.preorder, extension.Marks node :=
    exists_parse_eq_ok (by decide +kernel)
  obtain ⟨tree, hparse, herrors, hcheck, hmarks⟩ := hall
  exact ⟨_, tree, hparse, herrors, hcheck, hmarks extension extension.mem_all⟩

/-- There is no construct of the extended dialect in a canonical tree. It is not for the schema that
there is none: it takes trees of the extended dialect with each of them. -/
theorem not_marks_parse (source : String) (h : byteLength source.toList ≤ maxSourceLength) :
    (∃ tree, parse source .canonical = .ok tree ∧
      ∀ node ∈ tree.root.preorder, ∀ extension : Extension, ¬extension.Marks node) ∧
    ∀ extension : Extension, ∃ source tree, parse source .extended = .ok tree ∧
      tree.hasErrors = false ∧ tree.root.check = .ok () ∧
      ∃ node ∈ tree.root.preorder, extension.Marks node := by
  constructor
  · obtain ⟨stream, items, -, hitems, hparse⟩ := parse_eq_ok .canonical h
    refine ⟨_, hparse, ?_⟩
    intro node hnode
    have hformed : node.Formed .canonical :=
      formed_ofItems source hitems node (by simpa [Node.preorderAll] using hnode)
    exact hformed.not_marks
  · exact exists_marks

/-- All constructs at once are errors, and none of them is in the tree. -/
theorem not_marks_parse_extended :
    byteLength "struct s \x7b\x7d fn f() \x7b let x let g = fn() \x7b\x7d s \x7b\x7d \x7d".toList ≤
        maxSourceLength ∧
      (∃ tree,
        parse "struct s \x7b\x7d fn f() \x7b let x let g = fn() \x7b\x7d s \x7b\x7d \x7d" .canonical =
            .ok tree ∧
          ∀ node ∈ tree.root.preorder, ∀ extension : Extension, ¬extension.Marks node) ∧
      ∀ extension : Extension, ∃ source tree, parse source .extended = .ok tree ∧
        tree.hasErrors = false ∧ tree.root.check = .ok () ∧
        ∃ node ∈ tree.root.preorder, extension.Marks node :=
  ⟨by decide, not_marks_parse _ (by decide)⟩

end SyntaxTree

end LosslessSyntax
