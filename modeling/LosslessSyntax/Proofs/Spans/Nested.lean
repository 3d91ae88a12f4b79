import LosslessSyntax.Proofs.Spans.Missing
/-!
The spans of a tree are nested and in order. Nodes begin and end where tokens do, a parent reaches
from its first child to its last, and no two children overlap. A span is empty only where a list of
parameters is missing.
-/
namespace LosslessSyntax

open Node (Throughout)
open Text (byteLength)

def IsEdge (tokens : List Token) (offset : UInt32) : Prop :=
  ∃ token ∈ tokens, offset = token.span.start ∨ offset = token.span.stop

namespace Node

/-- The spans of the children lie within that of the node, one behind the other. -/
structure Nested (node : Node) : Prop where
  le : node.span.start ≤ node.span.stop
  inside : ∀ child ∈ node.children,
    node.span.start ≤ child.span.start ∧ child.span.stop ≤ node.span.stop
  apart : node.children.Pairwise fun child next => child.span.stop ≤ next.span.start

/-- The node is no longer than its children, and it begins and ends where tokens do. -/
structure Tight (tokens : List Token) (node : Node) : Prop where
  first : ∀ child, node.children.head? = some child → node.span.start = child.span.start
  last : ∀ child, node.children.getLast? = some child → node.span.stop = child.span.stop
  edges : IsEdge tokens node.span.start ∧ IsEdge tokens node.span.stop

structure LacksParameters (parent child : Node) : Prop where
  parent_kind : parent.kind = .functionDefinition ∨ parent.kind = .lambdaExpression
  kind : child.kind = .error
  field : child.field = some .parameters

structure Regular (node : Node) : Prop where
  inner : ∀ child ∈ node.children, child.kind ≠ .sourceFile
  solid : node.children ≠ [] → node.kind ≠ .error → node.kind ≠ .sourceFile →
    ∃ child ∈ node.children, child.kind ≠ .error
  slot : ∀ child ∈ node.children, child.kind = .error → child.field.isSome →
    node.LacksParameters child

end Node

theorem NodeKind.ofToken_ne_sourceFile (kind : TokenKind) : ofToken kind ≠ .sourceFile := by
  cases kind <;> simp [ofToken]

def Part.isRegular (parent : NodeKind) (part : Part) : Bool :=
  part.kind != .sourceFile && (part.kind != .error || part.field.isNone ||
    part.field == some .parameters &&
      (parent == .functionDefinition || parent == .lambdaExpression))

theorem NodeKind.forms_regular (dialect : Dialect) (kind : NodeKind) :
    ∀ form ∈ kind.forms dialect, form.restricts (fun _ => true) (Part.isRegular kind) ∧
      (form.isEmpty ∨ kind = .sourceFile ∨ form.certain fun part => part.kind != .error) := by
  cases kind
  case token => simp [forms, Shape.restricts]
  all_goals cases dialect <;> decide +kernel

theorem Node.Formed.regular {dialect : Dialect} {node : Node} (h : node.Formed dialect)
    (herror : node.kind ≠ .error) : node.Regular := by
  obtain ⟨form, hform, hfits⟩ := h.resolve_left herror
  obtain ⟨hparts, hcertain⟩ := NodeKind.forms_regular dialect node.kind form hform
  have hchild (child : Node) (hmem : child ∈ node.children) : child.part.isRegular node.kind :=
    hfits.restricted hparts child.part (List.mem_map_of_mem hmem) rfl
  simp only [Part.isRegular, Node.part, Bool.and_eq_true, Bool.or_eq_true, bne_iff_ne, ne_eq,
    beq_iff_eq, Option.isNone_iff_eq_none] at hchild
  refine ⟨fun child hmem => (hchild child hmem).1, fun hne _ hfile => ?_,
    fun child hmem hkind hslot => ?_⟩
  · rcases hcertain with hempty | hsource | hcertain
    · rw [List.isEmpty_iff] at hempty
      subst hempty
      exact absurd (List.map_eq_nil_iff.mp (Shape.fits_nil_iff.mp hfits)) hne
    · exact absurd hsource hfile
    · obtain ⟨part, hpart⟩ := List.exists_mem_of_ne_nil _ (hfits.filter_ne_nil hcertain)
      obtain ⟨hpart, hselect⟩ := List.mem_filter.mp hpart
      obtain ⟨child, hmem, rfl⟩ := List.mem_map.mp hpart
      exact ⟨child, hmem, bne_iff_ne.mp hselect⟩
  · obtain ⟨hfield, hparent⟩ := (hchild child hmem).2.resolve_left fun hother =>
      hother.elim (absurd hkind) fun hnone => by simp [hnone] at hslot
    exact ⟨hparent, hkind, hfield⟩

theorem Fragment.regular {dialect : Dialect} {stream : TokenStream} {start stop : Nat}
    {nodes : List Node} (h : Fragment dialect stream start stop nodes) :
    Throughout Node.Regular nodes := by
  have hleaf (node : Node) (hchildren : node.children = []) : node.Regular := by
    constructor <;> simp [hchildren]
  have hfield (node : Node) (field : Field) (hnode : node.Regular) :
      (node.withField field).Regular :=
    ⟨hnode.inner, hnode.solid, fun child hmem hkind hslot =>
      let hlacks := hnode.slot child hmem hkind hslot
      ⟨hlacks.parent_kind, hlacks.kind, hlacks.field⟩⟩
  refine h.throughout hfield (fun _ => hleaf _ rfl) (fun _ => hleaf _ rfl) ?_ ?_
  · intro kind offset children form hform hfits _
    have hformed : (Node.ofChildren kind offset children).Formed dialect :=
      .inr ⟨form, hform, hfits⟩
    refine hformed.regular ?_
    rintro rfl
    simp [NodeKind.forms] at hform
  · intro start stop diagnostic _ _ _
    have htoken : ∀ child ∈ (stream.errorNode start stop diagnostic).children,
        ∃ token, child = .ofToken token := fun child hmem => by
      obtain ⟨token, -, rfl⟩ := List.mem_map.mp hmem
      exact ⟨token, rfl⟩
    refine ⟨fun child hmem => ?_, fun _ herror => absurd rfl herror,
      fun child hmem _ hslot => ?_⟩ <;> obtain ⟨token, rfl⟩ := htoken child hmem
    · exact NodeKind.ofToken_ne_sourceFile token.kind
    · contradiction

namespace Covers

variable {stream : TokenStream} {start stop : Nat} {node : Node} {nodes : List Node}

theorem kind_eq_error (h : Covers stream start stop nodes) (hstop : stop ≤ start)
    (hregular : Throughout Node.Regular nodes) (hinner : ∀ node ∈ nodes, node.kind ≠ .sourceFile) :
    ∀ node ∈ nodes, node.kind = .error := by
  induction h with
  | nil => simp
  | leaf _ _ _ rest => exact absurd rest.le (by omega)
  | hollow _ kind _ _ _ ih =>
    rw [List.forall_mem_cons] at hinner ⊢
    rw [Node.throughout_cons] at hregular
    exact ⟨kind, ih hstop hregular.2.2 hinner.2⟩
  | parent head _ _ inner rest ihInner ihRest =>
    rw [List.forall_mem_cons] at hinner ⊢
    rw [Node.throughout_cons] at hregular
    have hle := inner.le
    have hle' := rest.le
    refine ⟨?_, ihRest (by omega) hregular.2.2 hinner.2⟩
    by_contra herror
    have hne : _ ≠ [] := List.ne_nil_of_mem (List.mem_of_mem_head? head)
    obtain ⟨child, hmem, hchild⟩ := hregular.1.solid hne herror hinner.1
    exact hchild (ihInner (by omega) hregular.2.1 hregular.1.inner child hmem)

section Ordered

variable (hordered : stream.Ordered)

include hordered

theorem spans (h : Covers stream start stop nodes) (hstart : start ≤ stream.body.size) :
    (∀ node ∈ nodes, (stream.get start).span.start ≤ node.span.start ∧
      node.span.start ≤ node.span.stop ∧ node.span.stop ≤ (stream.get stop).span.start) ∧
    nodes.Pairwise fun node next => node.span.stop ≤ next.span.start := by
  simp only [UInt32.le_iff_toNat_le]
  induction nodes generalizing start with
  | nil => simp
  | cons node nodes ih =>
    rw [← List.singleton_append] at h
    obtain ⟨middle, hnode, hrest⟩ := h.exists_of_append
    have hmiddle := hnode.stop_le hstart
    obtain ⟨hfirst, hle, -, hlast⟩ := hnode.bounds hordered hstart
    obtain ⟨hnodes, hpairwise⟩ := ih hrest hmiddle
    have hseam := hordered.start_le hnode.le hmiddle
    have hend := hordered.start_le hrest.le (hrest.stop_le hmiddle)
    refine ⟨List.forall_mem_cons.mpr
      ⟨⟨by rw [hfirst], hle, hlast.trans hend⟩, fun next hnext => ?_⟩,
      List.pairwise_cons.mpr ⟨fun next hnext => hlast.trans (hnodes next hnext).1, hpairwise⟩⟩
    obtain ⟨hnext, hnext'⟩ := hnodes next hnext
    exact ⟨hseam.trans hnext, hnext'⟩

theorem nested (h : Covers stream start stop [node]) (hstart : start ≤ stream.body.size) :
    node.Nested := by
  obtain ⟨hnode, -⟩ := h.spans hordered hstart
  obtain ⟨-, hle, -⟩ := hnode node List.mem_cons_self
  cases h with
  | leaf hleaf => exact ⟨hle, by simp [hleaf], by simp [hleaf]⟩
  | hollow hleaf => exact ⟨hle, by simp [hleaf], by simp [hleaf]⟩
  | parent head final span inner _ =>
    obtain ⟨hinner, hpairwise⟩ := inner.spans hordered hstart
    refine ⟨hle, fun child hmem => ?_, hpairwise⟩
    obtain ⟨hchild, hchild', -⟩ := hinner child hmem
    rw [span, inner.start_eq head]
    refine ⟨hchild, ?_⟩
    obtain ⟨front, hchildren⟩ := List.getLast?_eq_some_iff.mp final
    rw [hchildren] at hmem hpairwise hinner
    rcases List.mem_append.mp hmem with hfront | hlast
    · have hbefore := (List.pairwise_append.mp hpairwise).2.2 child hfront _ List.mem_cons_self
      exact UInt32.le_trans hbefore (hinner _ (by simp)).2.1
    · rw [List.mem_singleton.mp hlast]
      exact UInt32.le_refl _

omit hordered in
theorem tight (h : Covers stream start stop [node]) : node.Tight stream.toList := by
  have hedges : IsEdge stream.toList node.span.start ∧ IsEdge stream.toList node.span.stop := by
    refine ⟨⟨_, stream.get_mem_toList start, .inl (h.start_eq rfl)⟩, ?_⟩
    rcases h.stop_eq List.getLast?_singleton with hstop | ⟨-, hstop⟩
    · exact ⟨_, stream.get_mem_toList stop, .inl hstop⟩
    · exact ⟨_, stream.get_mem_toList (stop - 1), .inr hstop⟩
  cases h with
  | leaf hleaf => exact ⟨by simp [hleaf], by simp [hleaf], hedges⟩
  | hollow hleaf => exact ⟨by simp [hleaf], by simp [hleaf], hedges⟩
  | parent head final span =>
    refine ⟨fun child hchild => ?_, fun child hchild => ?_, hedges⟩
    · rw [span, Option.some.inj (hchild.symm.trans head)]
    · rw [span, Option.some.inj (hchild.symm.trans final)]

theorem lacksParameters {parent : Node} (h : Covers stream start stop parent.children)
    (hstart : start ≤ stream.body.size) (hparent : parent.Regular)
    (hregular : Throughout Node.Regular parent.children)
    (hplaced : Throughout Node.Placed parent.children) :
    ∀ child ∈ parent.children, child.span.isEmpty → parent.LacksParameters child := by
  intro child hmem hempty
  obtain ⟨first, last, hfirst, hchild, hlast⟩ := h.exists_of_mem hmem
  have hbound := h.stop_le hstart
  have hle := hchild.le
  have hstop : last ≤ first := by
    by_contra hlt
    rw [hchild.isEmpty_eq_false hordered (by omega) (by omega)] at hempty
    contradiction
  obtain ⟨hregular, hbelow⟩ := hregular.of_mem hmem
  have hkind : child.kind = .error := by
    refine hchild.kind_eq_error hstop ?_ ?_ child List.mem_cons_self
    · exact Node.throughout_cons.mpr ⟨hregular, hbelow, Node.throughout_nil⟩
    · simpa using hparent.inner child hmem
  exact hparent.slot child hmem hkind ((hplaced.of_mem hmem).1 hkind hempty)

end Ordered

end Covers

/-- What is true of the spans of a tree. -/
structure SyntaxTree.NestedSpans (tree : SyntaxTree) : Prop where
  root_start : tree.root.span.start = 0
  root_stop : tree.root.span.stop.toNat = byteLength tree.source.toList
  bounded : ∀ node ∈ tree.root.preorder, node.span.stop.toNat ≤ byteLength tree.source.toList
  nested : ∀ node ∈ tree.root.preorder, node.Nested
  tight : ∀ node ∈ Node.preorderAll tree.root.children, node.Tight tree.tokens
  root_empty : tree.root.span.isEmpty → tree.source = ""
  empty : ∀ parent ∈ tree.root.preorder, ∀ child ∈ parent.children,
    child.span.isEmpty → parent.LacksParameters child

theorem IsEdge.le {source : String} {offset : UInt32}
    (hlength : byteLength source.toList ≤ maxSourceLength)
    (h : IsEdge (tokenizeSignificant source) offset) : offset.toNat ≤ byteLength source.toList := by
  obtain ⟨token, hmem, hedge⟩ := h
  obtain ⟨hle, hstop⟩ := span_of_mem_tokenizeSignificant hlength hmem
  rw [UInt32.le_iff_toNat_le] at hle
  rcases hedge with rfl | rfl <;> omega

namespace SyntaxTree

theorem nestedSpans_ofItems {source : String} {stream : TokenStream} {dialect : Dialect}
    {items : List (Node × ItemExtent)} (hlength : byteLength source.toList ≤ maxSourceLength)
    (hof : stream.IsOf source) (hitems : (Setting.top stream dialect).Items 0 items) :
    (ofItems source stream items dialect).NestedSpans := by
  obtain ⟨stop, -, hbound, hfragment, -⟩ := hitems.fragment (Nat.zero_le _)
  have hordered := hof.ordered hlength
  have hcovers := hfragment.covers
  have hstop : stream.final.span.stop.toNat = byteLength source.toList := by
    rw [hof.final_eq]
    exact Token.start_endOfFile hlength
  have hfile : (ofItems source stream items dialect).root.Regular :=
    ((formed_ofItems source hitems).of_mem List.mem_cons_self).1.regular (by simp)
  have hregular := hfragment.regular
  have hplaced := hitems.placed hordered
  have hbelow : Throughout (fun node => node.Nested ∧ node.Tight stream.toList ∧
      ∀ child ∈ node.children, child.span.isEmpty → node.LacksParameters child)
      (items.map (·.1)) := by
    refine hcovers.throughout (Nat.zero_le _)
      (fun node hmem => And.intro (hregular node hmem) (hplaced node hmem))
      fun node start stop hstart hnode hsound => ?_
    refine ⟨hnode.nested hordered hstart, hnode.tight, ?_⟩
    rcases List.eq_nil_or_concat node.children with hnil | ⟨front, last, hne⟩
    · simp [hnil]
    · obtain ⟨hself, hchildren⟩ := hsound.of_mem List.mem_cons_self
      exact (hnode.children (by simp [hne])).lacksParameters hordered hstart hself.1
        (fun child hmem => (hchildren child hmem).1) fun child hmem => (hchildren child hmem).2
  constructor
  case root_start => rfl
  case root_stop => exact hstop
  case bounded =>
    exact forall_mem_preorder_ofItems.mpr
      ⟨hstop.le, fun node hmem => IsEdge.le hlength (hof ▸ (hbelow node hmem).2.1.edges.2)⟩
  case nested =>
    refine forall_mem_preorder_ofItems.mpr ⟨?_, fun node hmem => (hbelow node hmem).1⟩
    refine ⟨UInt32.le_iff_toNat_le.mpr (Nat.zero_le _), fun child hmem => ?_,
      (hcovers.spans hordered (Nat.zero_le _)).2⟩
    have hedge := (hbelow.of_mem hmem).1.2.1.edges.2
    refine ⟨UInt32.le_iff_toNat_le.mpr (Nat.zero_le _), UInt32.le_iff_toNat_le.mpr ?_⟩
    exact (IsEdge.le hlength (hof ▸ hedge)).trans hstop.ge
  case tight => exact fun node hmem => (hbelow node hmem).2.1
  case root_empty =>
    intro hempty
    have hzero : stream.final.span.stop = 0 := (beq_iff_eq.mp hempty).symm
    have hnil : source.toList = [] := by
      by_contra hne
      have hpos := Text.byteLength_pos hne
      rw [← hstop, hzero] at hpos
      exact absurd hpos (lt_irrefl _)
    exact String.toList_eq_nil_iff.mp hnil
  case empty =>
    exact forall_mem_preorder_ofItems.mpr
      ⟨hcovers.lacksParameters hordered (Nat.zero_le _) hfile hregular hplaced,
      fun parent hmem => (hbelow parent hmem).2.2⟩

/-- The spans of the tree of a source are nested and in order, and but for the root of an empty
source only an error in the place of a list of parameters has an empty one. -/
theorem nestedSpans_parse (source : String) (dialect : Dialect)
    (h : byteLength source.toList ≤ maxSourceLength) :
    ∃ tree, parse source dialect = .ok tree ∧ tree.source = source ∧ tree.NestedSpans := by
  obtain ⟨stream, items, hof, hitems, hparse⟩ := parse_eq_ok dialect h
  exact ⟨_, hparse, rfl, nestedSpans_ofItems h hof hitems⟩

/-- There are such errors. -/
example : ((parse "fn f" .canonical).toOption.any fun tree =>
    tree.root.preorder.any fun node => node.isError && node.span.isEmpty) = true := by
  decide +kernel

/-- A function without parameters or body, and condition parentheses that are taken off. -/
theorem nestedSpans_parse_missing :
    byteLength "fn f fn g() \x7b if (a) b \x7d".toList ≤ maxSourceLength ∧
      ∃ tree, parse "fn f fn g() \x7b if (a) b \x7d" .canonical = .ok tree ∧
        tree.source = "fn f fn g() \x7b if (a) b \x7d" ∧ tree.NestedSpans :=
  ⟨by decide, nestedSpans_parse _ .canonical (by decide)⟩

end SyntaxTree

end LosslessSyntax
