import LosslessSyntax.Parse.Run
import LosslessSyntax.Proofs.Cursor
import LosslessSyntax.Proofs.Grammar.Forms
/-!
Fragments: the lists of nodes that can come from a run of tokens, whatever the rules are that read
them. A property of trees is proved by one induction on how fragments are made, and the rules only
have to be shown to make fragments.
-/
namespace LosslessSyntax

/-- The nodes stand for the tokens from `start` up to `stop`. -/
inductive Fragment (dialect : Dialect) (stream : TokenStream) : Nat → Nat → List Node → Prop where
  | empty (start : Nat) : Fragment dialect stream start start []
  | take {start stop : Nat} {nodes : List Node} (front : Fragment dialect stream start stop nodes)
      (token : stream.kind stop ≠ .eof) :
      Fragment dialect stream start (stop + 1) (nodes ++ [.ofToken (stream.get stop)])
  | takeElse {start stop : Nat} {nodes : List Node}
      (front : Fragment dialect stream start stop nodes)
      (token : stream.kind stop = .elseKeyword) :
      Fragment dialect stream start (stop + 1)
        (nodes ++ [.leaf .elsePattern (stream.get stop).span])
  | append {start middle stop : Nat} {nodes more : List Node}
      (front : Fragment dialect stream start middle nodes)
      (back : Fragment dialect stream middle stop more) :
      Fragment dialect stream start stop (nodes ++ more)
  | label {start stop : Nat} {nodes : List Node} {node : Node} (field : Field)
      (whole : Fragment dialect stream start stop (nodes ++ [node])) :
      Fragment dialect stream start stop (nodes ++ [node.withField field])
  | labelInner {start stop : Nat} {nodes : List Node} {node : Node} (field : Field)
      (whole : Fragment dialect stream start stop (nodes ++ [node])) :
      Fragment dialect stream start stop (nodes ++ node.innerInField field)
  | wrap {start stop : Nat} {nodes : List Node} {kind : NodeKind} {form : Shape} (offset : UInt32)
      (whole : Fragment dialect stream start stop nodes) (nonempty : nodes ≠ [])
      (formed : form ∈ kind.forms dialect) (fits : Shape.Fits form (nodes.map Node.part)) :
      Fragment dialect stream start stop [.ofChildren kind offset nodes]
  | error {start stop : Nat} {diagnostic : Diagnostic} (order : start ≤ stop)
      (bound : stop ≤ stream.body.size) (recoverable : diagnostic.isInternal = false) :
      Fragment dialect stream start stop [stream.errorNode start stop diagnostic]

namespace Node

@[simp] theorem part_withField (node : Node) (field : Field) :
    (node.withField field).part = ⟨some field, node.kind⟩ := rfl

@[simp] theorem part_ofChildren (kind : NodeKind) (offset : UInt32) (children : List Node) :
    (ofChildren kind offset children).part = ⟨none, kind⟩ := rfl

@[simp] theorem part_ofToken (token : Token) :
    (ofToken token).part = ⟨none, .ofToken token.kind⟩ := rfl

@[simp] theorem part_leaf (kind : NodeKind) (span : Span) : (leaf kind span).part = ⟨none, kind⟩ :=
  rfl

@[simp] theorem children_ofToken (token : Token) : (ofToken token).children = [] := rfl

@[simp] theorem children_leaf (kind : NodeKind) (span : Span) : (leaf kind span).children = [] :=
  rfl

theorem innerInField_eq (field : Field) (node : Node) :
    (∃ opening inner closing, node.kind = .groupedExpression ∧
      node.children = [opening, inner, closing] ∧
      node.innerInField field = [opening, inner.withField field, closing]) ∨
    node.innerInField field = [node.withField field] := by
  unfold innerInField
  split
  · rename_i opening inner closing hkind hchildren
    exact .inl ⟨opening, inner, closing, hkind, hchildren, rfl⟩
  · exact .inr rfl

theorem preorder_eq (node : Node) : node.preorder = node :: preorderAll node.children := by
  cases node
  rfl

theorem preorderAll_append (front back : List Node) :
    preorderAll (front ++ back) = preorderAll front ++ preorderAll back := by
  induction front with
  | nil => rfl
  | cons node front ih => simp [preorderAll, ih]

def Throughout (P : Node → Prop) (nodes : List Node) : Prop := ∀ node ∈ preorderAll nodes, P node

variable {P : Node → Prop}

@[simp] theorem throughout_nil : Throughout P [] := by simp [Throughout, preorderAll]

@[simp] theorem throughout_append {front back : List Node} :
    Throughout P (front ++ back) ↔ Throughout P front ∧ Throughout P back := by
  simp only [Throughout, preorderAll_append, List.mem_append, or_imp, forall_and]

@[simp] theorem throughout_cons {node : Node} {nodes : List Node} :
    Throughout P (node :: nodes) ↔ P node ∧ Throughout P node.children ∧ Throughout P nodes := by
  simp only [Throughout, preorderAll, preorder_eq, List.cons_append, List.mem_cons, List.mem_append,
    or_imp, forall_and, forall_eq]

theorem Throughout.of_mem {nodes : List Node} (h : Throughout P nodes) {node : Node}
    (hmem : node ∈ nodes) : P node ∧ Throughout P node.children := by
  obtain ⟨front, back, rfl⟩ := List.append_of_mem hmem
  simp only [throughout_append, throughout_cons] at h
  exact ⟨h.2.1, h.2.2.1⟩

theorem Throughout.head {node : Node} {nodes : List Node} (h : Throughout P (node :: nodes)) :
    Throughout P [node] := by
  rw [throughout_cons] at h ⊢
  exact ⟨h.1, h.2.1, throughout_nil⟩

theorem Throughout.innerInField (hfield : ∀ node field, P node → P (node.withField field))
    {node : Node} (h : Throughout P [node]) (field : Field) :
    Throughout P (node.innerInField field) := by
  simp only [throughout_cons, throughout_nil, and_true] at h
  rcases node.innerInField_eq field with ⟨opening, inner, closing, -, hchildren, hinner⟩ | hinner
  · have hbelow := h.2
    simp only [hchildren, throughout_cons] at hbelow
    simp only [hinner, throughout_cons]
    exact ⟨hbelow.1, hbelow.2.1, hfield _ _ hbelow.2.2.1, hbelow.2.2.2⟩
  · simp only [hinner, throughout_cons, throughout_nil, and_true]
    exact ⟨hfield _ _ h.1, h.2⟩

theorem throughout_map_ofToken (h : ∀ token : Token, P (.ofToken token)) (tokens : List Token) :
    Throughout P (tokens.map ofToken) := by
  induction tokens with
  | nil => simp
  | cons token tokens ih => simp [h, ih]

end Node

theorem forms_ofToken (dialect : Dialect) (kind : TokenKind) :
    NodeKind.ofToken kind = .error ∨ (NodeKind.ofToken kind).forms dialect = [[]] := by
  cases kind <;> simp [NodeKind.ofToken, NodeKind.forms]

theorem Node.formed_ofToken (dialect : Dialect) (token : Token) :
    (Node.ofToken token).Formed dialect := by
  rcases forms_ofToken dialect token.kind with h | h
  · exact .inl h
  · exact .inr ⟨[], by simp [ofToken, leaf, h], rfl⟩

namespace Fragment

variable {dialect : Dialect} {stream : TokenStream}

theorem start_le {start stop : Nat} {nodes : List Node}
    (h : Fragment dialect stream start stop nodes) : start ≤ stop := by
  induction h with
  | empty => exact le_rfl
  | take _ _ ih => omega
  | takeElse _ _ ih => omega
  | append _ _ ihFront ihBack => exact ihFront.trans ihBack
  | label _ _ ih => exact ih
  | labelInner _ _ ih => exact ih
  | wrap _ _ _ _ _ ih => exact ih
  | error order => exact order

/-- What holds of leaves and error nodes, and of a node in form if it holds of all below, holds of
all nodes of a fragment. The slot of a node may have no say in it. -/
theorem throughout {P : Node → Prop} (hfield : ∀ node field, P node → P (node.withField field))
    (htoken : ∀ token : Token, P (.ofToken token))
    (helse : ∀ span, P (.leaf .elsePattern span))
    (hwrap : ∀ kind offset children, ∀ form ∈ kind.forms dialect,
      Shape.Fits form (children.map Node.part) → Node.Throughout P children →
      P (.ofChildren kind offset children))
    (herror : ∀ start stop diagnostic, start ≤ stop → stop ≤ stream.body.size →
      diagnostic.isInternal = false → P (stream.errorNode start stop diagnostic))
    {start stop : Nat} {nodes : List Node} (h : Fragment dialect stream start stop nodes) :
    Node.Throughout P nodes := by
  induction h with
  | empty => simp
  | take _ _ ih => simp [ih, htoken]
  | takeElse _ _ ih => simp [ih, helse]
  | append _ _ ihFront ihBack => simp [ihFront, ihBack]
  | label field _ ih =>
    simp only [Node.throughout_append, Node.throughout_cons] at ih ⊢
    exact ⟨ih.1, hfield _ _ ih.2.1, ih.2.2⟩
  | labelInner field _ ih =>
    simp only [Node.throughout_append] at ih ⊢
    exact ⟨ih.1, ih.2.innerInField hfield field⟩
  | wrap offset _ _ formed fits ih =>
    simp only [Node.throughout_cons, Node.throughout_nil, and_true]
    exact ⟨hwrap _ _ _ _ formed fits ih, ih⟩
  | @error start stop diagnostic order bound recoverable =>
    simp only [Node.throughout_cons, Node.throughout_nil, and_true]
    exact ⟨herror _ _ _ order bound recoverable, Node.throughout_map_ofToken htoken _⟩

theorem formed {start stop : Nat} {nodes : List Node}
    (h : Fragment dialect stream start stop nodes) : Node.Throughout (Node.Formed dialect) nodes :=
  h.throughout (fun _ _ hnode => hnode) (Node.formed_ofToken dialect)
    (fun _ => .inr ⟨[], by simp [Node.leaf, NodeKind.forms], rfl⟩)
    (fun _ _ _ form hform hfits _ => .inr ⟨form, hform, hfits⟩) (fun _ _ _ _ _ _ => .inl rfl)

end Fragment

end LosslessSyntax
