import LosslessSyntax.Proofs.SourceFile
import LosslessSyntax.Schema.Conformance
/-!
Conformance: the forms of nodes lie within the entries of the schema, which is a comparison of two
tables, and so the tree of every source passes the check of the schema.
-/
namespace LosslessSyntax

namespace Shape

variable {select : Part → Bool} {shape : Shape} {parts : List Part}

def single (select : Part → Bool) : Shape → Bool
  | [] => true
  | piece :: shape =>
    if piece.parts.any select then
      !piece.multiple && shape.all fun other => !other.parts.any select
    else single select shape

def certain (select : Part → Bool) (shape : Shape) : Bool :=
  shape.any fun piece => piece.required && piece.parts.all select

def restricts (select condition : Part → Bool) (shape : Shape) : Bool :=
  shape.all fun piece => piece.parts.all fun part => !select part || condition part

theorem Fits.filter_eq_nil (hfits : Fits shape parts)
    (h : shape.all fun piece => !piece.parts.any select) : parts.filter select = [] := by
  induction shape generalizing parts with
  | nil => simp [fits_nil_iff.mp hfits]
  | cons piece shape ih =>
    obtain ⟨run, rest, rfl, hrun, hrest⟩ := hfits
    simp only [List.all_cons, Bool.and_eq_true, Bool.not_eq_true', List.any_eq_false] at h
    rw [List.filter_append, ih hrest h.2, List.append_nil, List.filter_eq_nil_iff]
    exact fun part hpart => h.1 part (hrun.mem part hpart)

theorem Fits.length_filter_le (hfits : Fits shape parts) (h : shape.single select) :
    (parts.filter select).length ≤ 1 := by
  induction shape generalizing parts with
  | nil => simp [fits_nil_iff.mp hfits]
  | cons piece shape ih =>
    obtain ⟨run, rest, rfl, hrun, hrest⟩ := hfits
    rw [List.filter_append, List.length_append]
    unfold single at h
    split at h
    · -- the selection is in the first run, which is one node at most
      simp only [Bool.and_eq_true, Bool.not_eq_true'] at h
      have hlength := (List.length_filter_le select run).trans (hrun.single h.1)
      rw [hrest.filter_eq_nil h.2]
      simpa using hlength
    · rename_i hnone
      have hempty : run.filter select = [] := by
        rw [List.filter_eq_nil_iff]
        exact fun part hpart hselect =>
          hnone (List.any_eq_true.mpr ⟨part, hrun.mem part hpart, hselect⟩)
      rw [hempty]
      simpa using ih hrest h

theorem Fits.filter_ne_nil (hfits : Fits shape parts) (h : shape.certain select) :
    parts.filter select ≠ [] := by
  induction shape generalizing parts with
  | nil => simp [certain] at h
  | cons piece shape ih =>
    obtain ⟨run, rest, rfl, hrun, hrest⟩ := hfits
    rw [List.filter_append]
    simp only [certain, List.any_cons, Bool.or_eq_true, Bool.and_eq_true, List.all_eq_true] at h
    rcases h with ⟨hrequired, hselect⟩ | h
    · have hall : run.filter select = run :=
        List.filter_eq_self.mpr fun part hpart => hselect part (hrun.mem part hpart)
      simp [hall, hrun.ne_nil hrequired]
    · simp [ih hrest h]

theorem Fits.restricted (hfits : Fits shape parts) {condition : Part → Bool}
    (h : shape.restricts select condition) : ∀ part ∈ parts, select part → condition part := by
  induction shape generalizing parts with
  | nil => simp [fits_nil_iff.mp hfits]
  | cons piece shape ih =>
    obtain ⟨run, rest, rfl, hrun, hrest⟩ := hfits
    simp only [restricts, List.all_cons, Bool.and_eq_true, List.all_eq_true, Bool.or_eq_true,
      Bool.not_eq_true'] at h
    intro part hpart hselect
    rcases List.mem_append.mp hpart with hpart | hpart
    · exact (h.1 part (hrun.mem part hpart)).resolve_left (by simp [hselect])
    · exact ih hrest (by simpa [restricts] using h.2) part hpart hselect

end Shape

def Slot.admits (slot : Slot) (select : Part → Bool) (shape : Shape) : Bool :=
  (slot.multiple || shape.single select) && (!slot.required || shape.certain select) &&
    shape.restricts select fun part => slot.allows part.kind

namespace Part

def isIn (field : Field) (part : Part) : Bool := part.field == some field

def isLoose (part : Part) : Bool := part.field.isNone && part.kind.isNamed

end Part

namespace NodeType

def admits (type : NodeType) (shape : Shape) : Bool :=
  type.fields.all (fun (field, slot) => slot.admits (Part.isIn field) shape) &&
    shape.restricts (fun part => part.field.isSome)
      (fun part => part.field.all fun field => (type.fields.lookup field).isSome) &&
    match type.children with
    | some slot => slot.admits Part.isLoose shape
    | none => shape.restricts Part.isLoose fun part => part.kind == .error

end NodeType

/-- Whether all forms of a kind lie within its entry. -/
def NodeKind.conforms (dialect : Dialect) (kind : NodeKind) : Bool :=
  match Schema.entry? kind with
  | some type => (kind.forms dialect).all type.admits
  | none => false

theorem NodeKind.conforms_of_isNamed (dialect : Dialect) {kind : NodeKind} (hnamed : kind.isNamed)
    (herror : kind ≠ .error) : kind.conforms dialect := by
  have hall : ∀ kind ∈ named, kind ≠ .error → kind.conforms dialect := by
    cases dialect <;> decide +kernel
  exact hall kind ((mem_named_iff kind).mpr hnamed) herror

namespace Slot

variable {slot : Slot} {nodes : List Node}

theorem check_eq_ok (parent name : String) (hmultiple : slot.multiple = false → nodes.length ≤ 1)
    (hrequired : slot.required = true → nodes ≠ [])
    (hallows : ∀ node ∈ nodes, slot.allows node.kind) : slot.check parent name nodes = .ok () := by
  have hfind : nodes.find? (fun node => !slot.allows node.kind) = none := by
    simpa [List.find?_eq_none] using hallows
  have hfew : ¬(1 < nodes.length ∧ (!slot.multiple) = true) := by
    rintro ⟨hlength, hmany⟩
    have := hmultiple (by simpa using hmany)
    omega
  have hsome : ¬(nodes = [] ∧ slot.required = true) := fun h => hrequired h.2 h.1
  simp only [check, hfew, hsome, if_false, hfind]

theorem check_filter_eq_ok {select : Part → Bool} {shape : Shape} (parent name : String)
    (hfits : Shape.Fits shape (nodes.map Node.part)) (h : slot.admits select shape) :
    slot.check parent name (nodes.filter fun node => select node.part) = .ok () := by
  simp only [admits, Bool.and_eq_true, Bool.or_eq_true, Bool.not_eq_true'] at h
  obtain ⟨⟨hsingle, hcertain⟩, hrestricts⟩ := h
  have hfilter : (nodes.map Node.part).filter select =
      (nodes.filter fun node => select node.part).map Node.part := List.filter_map
  refine check_eq_ok parent name (fun hmultiple => ?_) (fun hrequired => ?_) fun node hnode => ?_
  · have hlength := hfits.length_filter_le (hsingle.resolve_left (by simp [hmultiple]))
    rwa [hfilter, List.length_map] at hlength
  · have hne := hfits.filter_ne_nil (hcertain.resolve_left (by simp [hrequired]))
    rwa [hfilter, ne_eq, List.map_eq_nil_iff] at hne
  · obtain ⟨hnode, hselect⟩ := List.mem_filter.mp hnode
    exact hfits.restricted hrestricts node.part (List.mem_map_of_mem hnode) hselect

end Slot

theorem forM_eq_ok {ε : Type} {items : List α} {step : α → Except ε Unit}
    (h : ∀ item ∈ items, step item = .ok ()) : items.forM step = .ok () := by
  induction items with
  | nil => rfl
  | cons item items ih =>
    change (step item >>= fun _ => items.forM step) = .ok ()
    rw [h item List.mem_cons_self]
    exact ih fun other hother => h other (List.mem_cons_of_mem _ hother)

namespace NodeType

variable {type : NodeType} {shape : Shape}

theorem admits_field (h : type.admits shape) {field : Field} {slot : Slot}
    (hslot : (field, slot) ∈ type.fields) : slot.admits (Part.isIn field) shape := by
  simp only [admits, Bool.and_eq_true, List.all_eq_true] at h
  exact h.1.1 (field, slot) hslot

theorem exists_slot (h : type.admits shape) {parts : List Part} (hfits : Shape.Fits shape parts)
    {field : Field} {kind : NodeKind} (hpart : ⟨some field, kind⟩ ∈ parts) :
    ∃ slot, type.fields.lookup field = some slot := by
  simp only [admits, Bool.and_eq_true] at h
  have hknown := hfits.restricted h.1.2 ⟨some field, kind⟩ hpart rfl
  exact Option.isSome_iff_exists.mp (by simpa using hknown)

end NodeType

namespace Node

variable {node : Node} {type : NodeType} {shape : Shape}

theorem checkFields_eq_ok (hfits : Shape.Fits shape (node.children.map part))
    (h : type.admits shape) : node.checkFields type = .ok () := by
  refine forM_eq_ok ?_
  rintro ⟨field, nodes⟩ hmem
  obtain ⟨field', -, hfield⟩ := List.mem_filterMap.mp hmem
  split at hfield
  · contradiction
  · rename_i hne
    obtain ⟨rfl, rfl⟩ := Prod.mk.inj (Option.some.inj hfield)
    obtain ⟨child, hchild⟩ := List.exists_mem_of_ne_nil _ hne
    obtain ⟨hchild, hin⟩ := List.mem_filter.mp hchild
    have hpart : (⟨some field', child.kind⟩ : Part) ∈ node.children.map part :=
      List.mem_map.mpr ⟨child, hchild, by rw [part, eq_of_beq hin]⟩
    obtain ⟨slot, hslot⟩ := NodeType.exists_slot h hfits hpart
    obtain ⟨front, back, hfields, -⟩ := List.lookup_eq_some_iff.mp hslot
    have hmember : (field', slot) ∈ type.fields := by simp [hfields]
    have hadmits := NodeType.admits_field h hmember
    simp only [hslot]
    exact Slot.check_filter_eq_ok node.kind.name field'.text hfits hadmits

theorem checkRequired_eq_ok (hfits : Shape.Fits shape (node.children.map part))
    (h : type.admits shape) : node.checkRequired type = .ok () := by
  refine forM_eq_ok ?_
  rintro ⟨field, slot⟩ hslot
  have hadmits := NodeType.admits_field h hslot
  simp only [Slot.admits, Bool.and_eq_true, Bool.or_eq_true, Bool.not_eq_true'] at hadmits
  refine if_neg ?_
  simp only [Bool.and_eq_true, beq_iff_eq, not_and]
  intro hrequired hnone
  refine hfits.filter_ne_nil (hadmits.1.2.resolve_left (by simp [hrequired])) ?_
  rw [List.filter_map, List.map_eq_nil_iff]
  exact hnone

theorem checkLoose_eq_ok (hfits : Shape.Fits shape (node.children.map part))
    (h : type.admits shape) : node.checkLoose type = .ok () := by
  simp only [NodeType.admits, Bool.and_eq_true] at h
  obtain ⟨-, hloose⟩ := h
  unfold checkLoose
  rcases hchildren : type.children with _ | slot
  · rw [hchildren] at hloose
    have hnone : node.looseChildren.find? (fun child => !child.isError) = none := by
      rw [List.find?_eq_none]
      intro child hchild
      obtain ⟨hchild, hselect⟩ := List.mem_filter.mp hchild
      have herror := hfits.restricted hloose child.part (List.mem_map_of_mem hchild) hselect
      simpa [isError, part] using herror
    simp only [hnone]
  · rw [hchildren] at hloose
    exact Slot.check_filter_eq_ok node.kind.name "children" hfits hloose

theorem checkHere_eq_ok {dialect : Dialect} (hformed : node.Formed dialect)
    (hnamed : node.kind.isNamed) (herror : node.kind ≠ .error) : node.checkHere = .ok () := by
  obtain ⟨form, hform, hfits⟩ := hformed.resolve_left herror
  have hconforms := NodeKind.conforms_of_isNamed dialect hnamed herror
  unfold NodeKind.conforms at hconforms
  split at hconforms
  · rename_i type hentry
    have hadmits := List.all_eq_true.mp hconforms form hform
    simp only [checkHere, hentry, checkFields_eq_ok hfits hadmits,
      checkRequired_eq_ok hfits hadmits, checkLoose_eq_ok hfits hadmits]
    rfl
  · contradiction

mutual

theorem check_eq_ok {dialect : Dialect} :
    (node : Node) → Throughout (Formed dialect) [node] → node.check = .ok ()
  | ⟨field, kind, span, children, diagnostic⟩, h => by
    simp only [throughout_cons, throughout_nil, and_true] at h
    unfold check
    split
    · rfl
    · rename_i hkind
      simp only [Bool.or_eq_true, beq_iff_eq, Bool.not_eq_true', not_or,
        Bool.not_eq_false] at hkind
      rw [checkHere_eq_ok h.1 hkind.2 hkind.1]
      exact checkAll_eq_ok children h.2

theorem checkAll_eq_ok {dialect : Dialect} :
    (nodes : List Node) → Throughout (Formed dialect) nodes → checkAll nodes = .ok ()
  | [], _ => rfl
  | node :: rest, h => by
    rw [← List.singleton_append, throughout_append] at h
    unfold checkAll
    rw [check_eq_ok node h.1]
    exact checkAll_eq_ok rest h.2

end

end Node

theorem Shape.fits_many {allowed parts : List Part} (h : ∀ part ∈ parts, part ∈ allowed) :
    Fits [.many allowed] parts :=
  ⟨parts, [], by simp, ⟨h, by simp [Piece.many], by simp [Piece.many]⟩, rfl⟩

namespace SyntaxTree

theorem formed_ofItems (source : String) {stream : TokenStream}
    {items : List (Node × ItemExtent)} {dialect : Dialect}
    (hitems : (Setting.top stream dialect).Items 0 items) :
    Node.Throughout (Node.Formed dialect) [(ofItems source stream items dialect).root] := by
  obtain ⟨stop, -, -, hfragment, hparts⟩ := hitems.fragment (Nat.zero_le _)
  have hroot : (ofItems source stream items dialect).root.Formed dialect := by
    refine .inr ⟨[.many (loose (.error :: NodeKind.items))], by simp [ofItems, rootOf,
      Node.ofChildren, NodeKind.forms], Shape.fits_many ?_⟩
    simp only [ofItems, rootOf, Node.ofChildren, List.map_map, List.forall_mem_map,
      Function.comp_apply]
    exact hparts
  simp only [Node.throughout_cons, Node.throughout_nil, and_true]
  exact ⟨hroot, hfragment.formed⟩

/-- The tree of every source that is not too long conforms to the published schema. -/
theorem check_parse (source : String) (dialect : Dialect)
    (h : Text.byteLength source.toList ≤ maxSourceLength) :
    ∃ tree, parse source dialect = .ok tree ∧ tree.root.check = .ok () := by
  obtain ⟨stream, items, -, hitems, hparse⟩ := parse_eq_ok dialect h
  exact ⟨_, hparse, Node.check_eq_ok _ (formed_ofItems source hitems)⟩

/-- The tree of a malformed function conforms too. -/
theorem check_parse_unfinished :
    Text.byteLength "fn f(".toList ≤ maxSourceLength ∧
      ∃ tree, parse "fn f(" .canonical = .ok tree ∧ tree.root.check = .ok () :=
  ⟨by decide, check_parse "fn f(" .canonical (by decide)⟩

end SyntaxTree

end LosslessSyntax
