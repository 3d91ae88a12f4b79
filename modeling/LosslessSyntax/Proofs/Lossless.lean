import LosslessSyntax.Proofs.Conformance
import Mathlib.Data.List.Forall2
/-!
Losslessness: the leaves of a tree that are not empty are the tokens of the source, one for one and
in order, on error paths too.
-/
namespace LosslessSyntax

namespace Node

/-- The childless nodes with a span that is not empty, of some nodes and all below them. -/
def visibleLeaves (nodes : List Node) : List Node :=
  (preorderAll nodes).filter fun node => node.isLeaf && !node.span.isEmpty

/-- A leaf has the span of a token and its kind, but an `else` may be a pattern. -/
def IsLeafOf (leaf : Node) (token : Token) : Prop :=
  leaf.span = token.span ∧ (leaf.kind = .ofToken token.kind ∨
    token.kind = .elseKeyword ∧ leaf.kind = .elsePattern)

def Spell (nodes : List Node) (tokens : List Token) : Prop :=
  List.Forall₂ IsLeafOf (visibleLeaves nodes) tokens

variable {node : Node} {nodes front back : List Node} {tokens tokens' : List Token}

@[simp] theorem visibleLeaves_nil : visibleLeaves [] = [] := rfl

@[simp] theorem visibleLeaves_append :
    visibleLeaves (front ++ back) = visibleLeaves front ++ visibleLeaves back := by
  simp [visibleLeaves, preorderAll_append]

theorem visibleLeaves_cons (node : Node) (nodes : List Node) :
    visibleLeaves (node :: nodes) = visibleLeaves [node] ++ visibleLeaves nodes := by
  rw [← visibleLeaves_append, List.singleton_append]

theorem visibleLeaves_singleton_of_children (h : node.children ≠ []) :
    visibleLeaves [node] = visibleLeaves node.children := by
  simp [visibleLeaves, preorderAll, preorder_eq, isLeaf, h]

theorem visibleLeaves_singleton_of_leaf (h : node.children = []) :
    visibleLeaves [node] = if node.span.isEmpty then [] else [node] := by
  cases hempty : node.span.isEmpty <;>
    simp [visibleLeaves, preorderAll, preorder_eq, isLeaf, h, hempty]

theorem Spell.append (hfront : Spell front tokens) (hback : Spell back tokens') :
    Spell (front ++ back) (tokens ++ tokens') := by
  rw [Spell, visibleLeaves_append]
  exact List.rel_append hfront hback

theorem spell_singleton {token : Token} (hchildren : node.children = []) (h : node.IsLeafOf token)
    (hempty : token.span.isEmpty = false) : Spell [node] [token] := by
  rw [Spell, visibleLeaves_singleton_of_leaf hchildren, h.1, hempty]
  exact .cons h .nil

def unslotted (node : Node) : Node := { node with field := none }

theorem Spell.congr {nodes' : List Node} (h : Spell nodes tokens)
    (hleaves : (visibleLeaves nodes').map unslotted = (visibleLeaves nodes).map unslotted) :
    Spell nodes' tokens := by
  have hmap (nodes : List Node) :
      List.Forall₂ IsLeafOf ((visibleLeaves nodes).map unslotted) tokens ↔ Spell nodes tokens :=
    List.forall₂_map_left_iff
  rw [← hmap, hleaves, hmap]
  exact h

theorem unslotted_visibleLeaves_withField (node : Node) (field : Field) :
    (visibleLeaves [node.withField field]).map unslotted =
      (visibleLeaves [node]).map unslotted := by
  by_cases hchildren : node.children = []
  · have hchildren' : (node.withField field).children = [] := hchildren
    rw [visibleLeaves_singleton_of_leaf hchildren, visibleLeaves_singleton_of_leaf hchildren']
    cases hempty : node.span.isEmpty <;> simp [withField, unslotted, hempty]
  · have hchildren' : (node.withField field).children ≠ [] := hchildren
    rw [visibleLeaves_singleton_of_children hchildren,
      visibleLeaves_singleton_of_children hchildren']
    rfl

theorem unslotted_visibleLeaves_innerInField (node : Node) (field : Field) :
    (visibleLeaves (node.innerInField field)).map unslotted =
      (visibleLeaves [node]).map unslotted := by
  rcases node.innerInField_eq field with ⟨opening, inner, closing, -, hchildren, hinner⟩ | hinner
  · rw [hinner, visibleLeaves_singleton_of_children (by simp [hchildren]), hchildren,
      visibleLeaves_cons opening, visibleLeaves_cons (inner.withField field),
      visibleLeaves_cons opening [inner, closing], visibleLeaves_cons inner]
    simp only [List.map_append, unslotted_visibleLeaves_withField]
  · rw [hinner]
    exact unslotted_visibleLeaves_withField node field

theorem spell_map_ofToken (h : ∀ token ∈ tokens, token.span.isEmpty = false) :
    Spell (tokens.map ofToken) tokens := by
  induction tokens with
  | nil => exact .nil
  | cons token tokens ih =>
    have hfirst : Spell [ofToken token] [token] :=
      spell_singleton rfl ⟨rfl, .inl rfl⟩ (h token List.mem_cons_self)
    exact hfirst.append (ih fun other hother => h other (List.mem_cons_of_mem _ hother))

end Node

theorem Fragment.spell {dialect : Dialect} {stream : TokenStream} {start stop : Nat}
    {nodes : List Node} (h : Fragment dialect stream start stop nodes)
    (hspan : ∀ index, index < stream.body.size → (stream.get index).span.isEmpty = false) :
    Node.Spell nodes (stream.slice start stop) := by
  induction h with
  | empty =>
    rw [TokenStream.slice_self]
    exact .nil
  | @take start stop nodes front token ih =>
    rw [stream.slice_succ front.start_le]
    exact ih.append (Node.spell_singleton rfl ⟨rfl, .inl rfl⟩
      (hspan stop (TokenStream.lt_of_kind_ne_eof token)))
  | @takeElse start stop nodes front token ih =>
    rw [stream.slice_succ front.start_le]
    have hlt : stop < stream.body.size := TokenStream.lt_of_kind_ne_eof (by simp [token])
    exact ih.append (Node.spell_singleton rfl ⟨rfl, .inr ⟨token, rfl⟩⟩ (hspan stop hlt))
  | append front back ihFront ihBack =>
    rw [← stream.slice_append front.start_le back.start_le]
    exact ihFront.append ihBack
  | label field _ ih =>
    refine ih.congr ?_
    simp only [Node.visibleLeaves_append, List.map_append, Node.unslotted_visibleLeaves_withField]
  | labelInner field _ ih =>
    refine ih.congr ?_
    simp only [Node.visibleLeaves_append, List.map_append,
      Node.unslotted_visibleLeaves_innerInField]
  | wrap offset _ nonempty _ _ ih =>
    rw [Node.Spell, Node.visibleLeaves_singleton_of_children nonempty]
    exact ih
  | @error start stop diagnostic order bound _ =>
    have htokens : ∀ token ∈ stream.slice start stop, token.span.isEmpty = false := by
      intro token htoken
      obtain ⟨index, hindex, rfl⟩ := List.mem_map.mp htoken
      have := List.mem_range'_1.mp hindex
      exact hspan index (by omega)
    rcases horder : stream.slice start stop with _ | ⟨token, tokens⟩
    · -- an error that stands for no token is a leaf, but an empty one
      have hchildren : (stream.errorNode start stop diagnostic).children = [] := by
        simp [TokenStream.errorNode, Node.ofChildren, horder]
      rw [Node.Spell, Node.visibleLeaves_singleton_of_leaf hchildren]
      simp [TokenStream.errorNode, Node.ofChildren, Node.spanOf, horder]
    · have hchildren : (stream.errorNode start stop diagnostic).children ≠ [] := by
        simp [TokenStream.errorNode, Node.ofChildren, horder]
      rw [Node.Spell, Node.visibleLeaves_singleton_of_children hchildren, ← horder]
      exact Node.spell_map_ofToken htokens

namespace Node

/-- Whether a child of a parent is used as a pattern. -/
def UsesAsPattern (parent child : Node) : Prop :=
  parent.kind = .matchArm ∧ child.field = some .pattern ∨
    parent.kind = .variantPattern ∧ child.field = none

/-- An `else` below a parent is a pattern by its kind just when it is used as one. -/
def TellsElse (parent : Node) : Prop :=
  ∀ child ∈ parent.children, (child.kind = .elsePattern → parent.UsesAsPattern child) ∧
    (child.kind = .token .elseKeyword → ¬parent.UsesAsPattern child)

end Node

def Part.tellsElse (parent : NodeKind) (part : Part) : Bool :=
  let pattern := parent == .matchArm && part.field == some .pattern ||
    parent == .variantPattern && part.field == none
  (part.kind != .elsePattern || pattern) && (part.kind != .token .elseKeyword || !pattern)

theorem NodeKind.forms_tellElse (dialect : Dialect) (kind : NodeKind) :
    ∀ form ∈ kind.forms dialect, form.restricts (fun _ => true) (Part.tellsElse kind) := by
  cases kind
  case token => simp [forms, Shape.restricts]
  all_goals cases dialect <;> decide +kernel

theorem NodeKind.ofToken_ne_elsePattern (kind : TokenKind) : ofToken kind ≠ .elsePattern := by
  cases kind <;> simp [ofToken]

theorem Node.Formed.tellsElse {dialect : Dialect} {parent : Node} (h : parent.Formed dialect)
    (herror : parent.kind ≠ .error) : parent.TellsElse := by
  obtain ⟨form, hform, hfits⟩ := h.resolve_left herror
  intro child hchild
  have hpart := hfits.restricted (NodeKind.forms_tellElse dialect parent.kind form hform) child.part
    (List.mem_map_of_mem hchild) rfl
  simp only [Part.tellsElse, Node.part, Bool.and_eq_true, Bool.or_eq_true, bne_iff_ne, ne_eq,
    beq_iff_eq, Bool.not_eq_true', Bool.or_eq_false_iff, Bool.and_eq_false_iff] at hpart
  obtain ⟨hpattern, hkeyword⟩ := hpart
  refine ⟨fun hkind => hpattern.resolve_left (not_not_intro hkind), fun hkind huse => ?_⟩
  obtain ⟨harm, hvariant⟩ := hkeyword.resolve_left (not_not_intro hkind)
  rcases huse with ⟨hparent, hfield⟩ | ⟨hparent, hfield⟩
  · simp [hparent, hfield] at harm
  · simp [hparent, hfield] at hvariant

theorem Fragment.tellsElse {dialect : Dialect} {stream : TokenStream} {start stop : Nat}
    {nodes : List Node} (h : Fragment dialect stream start stop nodes) :
    Node.Throughout Node.TellsElse nodes := by
  refine h.throughout (fun _ _ hnode => hnode) ?_ ?_ ?_ ?_
  · exact fun token child hchild => by simp at hchild
  · exact fun span child hchild => by simp at hchild
  · intro kind offset children form hform hfits _
    have hformed : (Node.ofChildren kind offset children).Formed dialect :=
      .inr ⟨form, hform, hfits⟩
    refine hformed.tellsElse ?_
    rintro rfl
    simp [NodeKind.forms] at hform
  · intro start stop diagnostic _ _ _ child hchild
    obtain ⟨token, -, rfl⟩ := List.mem_map.mp hchild
    refine ⟨fun hkind => absurd hkind (NodeKind.ofToken_ne_elsePattern token.kind), fun _ huse => ?_⟩
    rcases huse with ⟨hparent, -⟩ | ⟨hparent, -⟩ <;> contradiction

namespace TokenStream.IsOf

variable {stream : TokenStream} {source : String}

theorem toList_body (h : stream.IsOf source) :
    stream.body.toList = (tokenizeSignificant source).filter fun token => token.kind != .eof := by
  have hbody : ∀ token ∈ stream.body.toList, token.kind != .eof := by
    intro token htoken
    obtain ⟨index, hindex, rfl⟩ := List.getElem_of_mem htoken
    have hlt : index < stream.body.size := by simpa using hindex
    have hkind := (h.get_of_lt hlt).1
    rw [kind, get, Array.getElem?_eq_getElem hlt, Option.getD_some] at hkind
    exact bne_iff_ne.mpr hkind
  rw [← h, toList, List.filter_append, List.filter_eq_self.mpr hbody]
  simp [stream.final_kind]

theorem slice_eq (h : stream.IsOf source) :
    stream.slice 0 stream.body.size =
      (tokenizeSignificant source).filter fun token => token.kind != .eof := by
  rw [← h.toList_body]
  refine List.ext_getElem (by simp [slice]) fun index hindex _ => ?_
  have hlt : index < stream.body.size := by simpa [slice] using hindex
  simp [slice, get, hlt]

end TokenStream.IsOf

namespace SyntaxTree

/-- The tree of every source that is not too long is lossless: the leaves below its root that are not
empty are the tokens but the end of file, one for one, in order and of their kinds. Only an `else`
that is used as a pattern is a leaf of a kind of its own. -/
theorem spell_parse (source : String) (dialect : Dialect)
    (h : Text.byteLength source.toList ≤ maxSourceLength) :
    ∃ tree, parse source dialect = .ok tree ∧
      Node.Spell tree.root.children
        ((tokenizeSignificant source).filter fun token => token.kind != .eof) ∧
      ∀ parent ∈ tree.root.preorder, parent.TellsElse := by
  obtain ⟨stream, items, hof, hitems, hparse⟩ := parse_eq_ok dialect h
  obtain ⟨stop, hstop, hle, hfragment, -⟩ := hitems.fragment (Nat.zero_le _)
  obtain rfl : stop = stream.body.size := Nat.le_antisymm hle (hof.kind_eq_eof_iff.mp hstop)
  refine ⟨_, hparse, ?_, ?_⟩
  · rw [← hof.slice_eq]
    exact hfragment.spell fun index hindex => (hof.get_of_lt hindex).2.2 h
  · have hroot := (formed_ofItems source hitems).of_mem (List.mem_singleton.mpr rfl)
    exact forall_mem_preorder_ofItems.mpr ⟨hroot.1.tellsElse (by simp), hfragment.tellsElse⟩

/-- A pattern that is an `else`, and an arm that is cut short. -/
theorem spell_parse_else :
    Text.byteLength "fn f() \x7b x match \x7b else => y, z".toList ≤ maxSourceLength ∧
      ∃ tree, parse "fn f() \x7b x match \x7b else => y, z" .canonical = .ok tree ∧
        Node.Spell tree.root.children
          ((tokenizeSignificant "fn f() \x7b x match \x7b else => y, z").filter
            fun token => token.kind != .eof) ∧
        ∀ parent ∈ tree.root.preorder, parent.TellsElse :=
  ⟨by decide, spell_parse _ .canonical (by decide)⟩

end SyntaxTree

end LosslessSyntax
