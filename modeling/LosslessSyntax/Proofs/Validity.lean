import LosslessSyntax.Proofs.Conformance
import Mathlib.Data.List.Nodup
/-!
What the check of the schema decides, for every tree and not only for those that are read: a tree
passes if and only if each node that the check comes to fills the slots of its entry, and these are
all nodes but those below an error or an unnamed leaf.
-/
namespace LosslessSyntax

/-- The nodes are as many as the slot asks for, and each is an error or of a kind that it lists. -/
structure Slot.Takes (slot : Slot) (nodes : List Node) : Prop where
  present : slot.required → nodes ≠ []
  single : slot.multiple = false → nodes.length ≤ 1
  allowed : ∀ node ∈ nodes, node.kind = .error ∨ node.kind ∈ slot.kinds

/-- Nodes in no slot have a place of their own, and where the entry has none they are errors. -/
def NodeType.TakesLoose (type : NodeType) (nodes : List Node) : Prop :=
  match type.children with
  | some slot => slot.Takes nodes
  | none => ∀ node ∈ nodes, node.kind = .error

/-- The entry is that of the node, and the children of the node fill its slots and no others. -/
structure NodeType.Describes (type : NodeType) (node : Node) : Prop where
  kind : type.kind = node.kind
  known : ∀ child ∈ node.children, ∀ field, child.field = some field →
    ∃ slot, (field, slot) ∈ type.fields
  slots : ∀ field slot, (field, slot) ∈ type.fields → slot.Takes (node.childrenByField field)
  loose : type.TakesLoose node.looseChildren

/-- The node is the top, or there is a way down to it that passes no error and no unnamed leaf. -/
inductive Node.Reaches (top : Node) : Node → Prop where
  | top : Reaches top top
  | child {parent node : Node} (reached : Reaches top parent) (named : parent.kind.isNamed)
      (sound : parent.kind ≠ .error) (below : node ∈ parent.children) : Reaches top node

namespace Schema

theorem nodup_kinds : (entries.map (·.kind)).Nodup := by decide +kernel

theorem nodup_fields : ∀ type ∈ entries, (type.fields.map (·.1)).Nodup := by decide +kernel

theorem entry?_eq_some_iff {kind : NodeKind} {type : NodeType} :
    entry? kind = some type ↔ type ∈ entries ∧ type.kind = kind := by
  have hfound {found : NodeType} (h : entry? kind = some found) :
      found ∈ entries ∧ found.kind = kind := by
    unfold entry? at h
    exact ⟨List.mem_of_find?_eq_some h, by simpa using List.find?_some h⟩
  refine ⟨hfound, ?_⟩
  rintro ⟨hmem, hkind⟩
  obtain ⟨found, hentry⟩ : ∃ found, entry? kind = some found := by
    rw [← Option.isSome_iff_exists, entry?, List.find?_isSome]
    exact ⟨type, hmem, beq_iff_eq.mpr hkind⟩
  obtain ⟨hmem', hkind'⟩ := hfound hentry
  obtain rfl : found = type :=
    List.inj_on_of_nodup_map nodup_kinds hmem' hmem (hkind'.trans hkind.symm)
  exact hentry

end Schema

theorem lookup_eq_some_iff_mem {α β : Type} [BEq α] [LawfulBEq α] {pairs : List (α × β)}
    (h : (pairs.map (·.1)).Nodup) {key : α} {value : β} :
    pairs.lookup key = some value ↔ (key, value) ∈ pairs := by
  induction pairs with
  | nil => simp
  | cons pair pairs ih =>
    obtain ⟨first, last⟩ := pair
    rw [List.map_cons, List.nodup_cons] at h
    by_cases hkey : key = first
    · subst hkey
      have hnone : (key, value) ∉ pairs := fun hmem => h.1 (List.mem_map_of_mem (f := (·.1)) hmem)
      simp [hnone, eq_comm]
    · have hbeq : (key == first) = false := beq_eq_false_iff_ne.mpr hkey
      simp [List.lookup_cons, hbeq, ih h.2, hkey]

section Steps

variable {ε : Type}

theorem bind_eq_ok_iff {first next : Except ε Unit} :
    (first >>= fun _ => next) = .ok () ↔ first = .ok () ∧ next = .ok () := by
  cases first with
  | ok => exact (and_iff_right rfl).symm
  | error => exact iff_of_false nofun fun h => nomatch h.1

theorem forM_eq_ok_iff {items : List α} {step : α → Except ε Unit} :
    items.forM step = .ok () ↔ ∀ item ∈ items, step item = .ok () := by
  refine ⟨fun h => ?_, forM_eq_ok⟩
  induction items with
  | nil => simp
  | cons item items ih =>
    obtain ⟨hitem, hitems⟩ := bind_eq_ok_iff.mp h
    exact List.forall_mem_cons.mpr ⟨hitem, ih hitems⟩

end Steps

theorem Slot.allows_iff {slot : Slot} {kind : NodeKind} :
    slot.allows kind ↔ kind = .error ∨ kind ∈ slot.kinds := by
  simp [allows]

theorem Slot.check_eq_ok_iff_takes {slot : Slot} {parent name : String} {nodes : List Node} :
    slot.check parent name nodes = .ok () ↔ slot.Takes nodes := by
  constructor
  · intro h
    unfold check at h
    split_ifs at h with hfew hsome
    split at h
    · contradiction
    · rename_i hfind
      simp only [List.find?_eq_none, Bool.not_eq_true, Bool.not_eq_false', allows_iff] at hfind
      refine ⟨fun hrequired hnil => hsome ⟨hnil, hrequired⟩, fun hmultiple => ?_, hfind⟩
      exact Nat.not_lt.mp fun hlt => hfew ⟨hlt, by simp [hmultiple]⟩
  · intro h
    exact check_eq_ok parent name h.single h.present fun node hnode =>
      allows_iff.mpr (h.allowed node hnode)

namespace Node

variable {node : Node} {type : NodeType}

theorem mem_childrenByField {child : Node} {field : Field} :
    child ∈ node.childrenByField field ↔ child ∈ node.children ∧ child.field = some field := by
  simp [childrenByField]

theorem mem_fields {field : Field} {nodes : List Node} :
    (field, nodes) ∈ node.fields ↔ nodes = node.childrenByField field ∧ nodes ≠ [] := by
  simp only [fields, List.mem_filterMap]
  constructor
  · rintro ⟨other, -, hother⟩
    split at hother
    · contradiction
    · rename_i hne
      obtain ⟨rfl, rfl⟩ := Prod.mk.inj (Option.some.inj hother)
      exact ⟨rfl, hne⟩
  · rintro ⟨rfl, hne⟩
    refine ⟨field, field.mem_all, ?_⟩
    split
    · contradiction
    · rfl

theorem checkFields_eq_ok_iff :
    node.checkFields type = .ok () ↔ ∀ field, node.childrenByField field ≠ [] →
      ∃ slot, type.fields.lookup field = some slot ∧ slot.Takes (node.childrenByField field) := by
  rw [checkFields, forM_eq_ok_iff]
  constructor
  · intro h field hne
    have hcheck := h (field, node.childrenByField field) (mem_fields.mpr ⟨rfl, hne⟩)
    dsimp only at hcheck
    split at hcheck
    · rename_i slot hslot
      exact ⟨slot, hslot, Slot.check_eq_ok_iff_takes.mp hcheck⟩
    · contradiction
  · rintro h ⟨field, nodes⟩ hmem
    obtain ⟨rfl, hne⟩ := mem_fields.mp hmem
    obtain ⟨slot, hslot, htakes⟩ := h field hne
    simp only [hslot]
    exact Slot.check_eq_ok_iff_takes.mpr htakes

theorem checkRequired_eq_ok_iff :
    node.checkRequired type = .ok () ↔ ∀ field slot, (field, slot) ∈ type.fields →
      slot.required → node.childrenByField field ≠ [] := by
  rw [checkRequired, forM_eq_ok_iff, Prod.forall]
  refine forall_congr' fun field => forall_congr' fun slot => imp_congr_right fun _ => ?_
  simp

theorem checkLoose_eq_ok_iff :
    node.checkLoose type = .ok () ↔ type.TakesLoose node.looseChildren := by
  unfold checkLoose NodeType.TakesLoose
  cases type.children with
  | some slot => exact Slot.check_eq_ok_iff_takes
  | none =>
    cases hfind : node.looseChildren.find? fun child => !child.isError with
    | some child =>
      have hsound := List.find?_some hfind
      simp only [isError, Bool.not_eq_true', beq_eq_false_iff_ne] at hsound
      constructor
      · intro h
        contradiction
      · intro h
        exact absurd (h child (List.mem_of_find?_eq_some hfind)) hsound
    | none =>
      have hsound := List.find?_eq_none.mp hfind
      simp only [isError, Bool.not_eq_true, Bool.not_eq_false', beq_iff_eq] at hsound
      exact iff_of_true rfl hsound

theorem checkHere_eq_ok_iff :
    node.checkHere = .ok () ↔ ∃ type ∈ Schema.entries, type.Describes node := by
  unfold checkHere
  split
  · rename_i hnone
    refine iff_of_false nofun ?_
    rintro ⟨type, hmem, hdescribes⟩
    rw [Schema.entry?_eq_some_iff.mpr ⟨hmem, hdescribes.kind⟩] at hnone
    contradiction
  · rename_i type hentry
    obtain ⟨hmem, hkind⟩ := Schema.entry?_eq_some_iff.mp hentry
    have hlookup {field : Field} {slot : Slot} :
        type.fields.lookup field = some slot ↔ (field, slot) ∈ type.fields :=
      lookup_eq_some_iff_mem (Schema.nodup_fields type hmem)
    rw [bind_eq_ok_iff, bind_eq_ok_iff, checkFields_eq_ok_iff, checkRequired_eq_ok_iff,
      checkLoose_eq_ok_iff]
    constructor
    · rintro ⟨hfields, hrequired, hloose⟩
      refine ⟨type, hmem, hkind, fun child hchild field hfield => ?_, fun field slot hslot => ?_,
        hloose⟩
      · have hne : node.childrenByField field ≠ [] :=
          List.ne_nil_of_mem (mem_childrenByField.mpr ⟨hchild, hfield⟩)
        obtain ⟨slot, hslot, -⟩ := hfields field hne
        exact ⟨slot, hlookup.mp hslot⟩
      · by_cases hnil : node.childrenByField field = []
        · -- a slot that is left empty can only be one that may be
          rw [hnil]
          exact ⟨fun h => absurd hnil (hrequired field slot hslot h), fun _ => Nat.zero_le _,
            by simp⟩
        · obtain ⟨found, hfound, htakes⟩ := hfields field hnil
          obtain rfl : found = slot := Option.some.inj (hfound.symm.trans (hlookup.mpr hslot))
          exact htakes
    · rintro ⟨other, hother, hdescribes⟩
      obtain rfl : other = type := List.inj_on_of_nodup_map Schema.nodup_kinds hother hmem
        (hdescribes.kind.trans hkind.symm)
      refine ⟨fun field hne => ?_, fun field slot hslot => (hdescribes.slots field slot hslot).present,
        hdescribes.loose⟩
      obtain ⟨child, hchild⟩ := List.exists_mem_of_ne_nil _ hne
      obtain ⟨hchild, hfield⟩ := mem_childrenByField.mp hchild
      obtain ⟨slot, hslot⟩ := hdescribes.known child hchild field hfield
      exact ⟨slot, hlookup.mpr hslot, hdescribes.slots field slot hslot⟩

theorem checkAll_eq_ok_iff {nodes : List Node} :
    checkAll nodes = .ok () ↔ ∀ node ∈ nodes, node.check = .ok () := by
  induction nodes with
  | nil => simp [checkAll]
  | cons node nodes ih =>
    rw [checkAll, bind_eq_ok_iff, ih, List.forall_mem_cons]

theorem check_eq_ok_iff_children :
    node.check = .ok () ↔ (node.kind.isNamed → node.kind ≠ .error →
      node.checkHere = .ok () ∧ ∀ child ∈ node.children, child.check = .ok ()) := by
  obtain ⟨field, kind, span, children, diagnostic⟩ := node
  rw [check]
  split
  · rename_i hkind
    simp only [Bool.or_eq_true, beq_iff_eq, Bool.not_eq_true'] at hkind
    refine iff_of_true rfl fun hnamed hsound => ?_
    rcases hkind with hkind | hkind
    · exact absurd hkind hsound
    · exact absurd hnamed (by simp [hkind])
  · rename_i hkind
    simp only [Bool.or_eq_true, beq_iff_eq, Bool.not_eq_true', not_or, Bool.not_eq_false] at hkind
    rw [bind_eq_ok_iff, checkAll_eq_ok_iff]
    exact (forall_prop_of_true hkind.2).trans (forall_prop_of_true hkind.1) |>.symm

theorem Reaches.check_eq_ok {top below : Node} (h : top.Reaches below)
    (htop : top.check = .ok ()) : below.check = .ok () := by
  induction h with
  | top => exact htop
  | child _ named sound mem ih =>
    exact (check_eq_ok_iff_children.mp ih named sound).2 _ mem

theorem Reaches.of_child {top child below : Node} (named : top.kind.isNamed)
    (sound : top.kind ≠ .error) (mem : child ∈ top.children) (h : child.Reaches below) :
    top.Reaches below := by
  induction h with
  | top => exact .child .top named sound mem
  | child _ named' sound' mem' ih => exact .child ih named' sound' mem'

mutual

theorem check_of_reaches : (top : Node) →
    (∀ node, top.Reaches node → node.kind.isNamed → node.kind ≠ .error →
      node.checkHere = .ok ()) → top.check = .ok ()
  | ⟨_, _, _, children, _⟩, h =>
    check_eq_ok_iff_children.mpr fun hnamed hsound =>
      ⟨h _ .top hnamed hsound, check_of_mem children fun _ hchild _ hreached =>
        h _ (hreached.of_child hnamed hsound hchild)⟩

theorem check_of_mem : (nodes : List Node) →
    (∀ top ∈ nodes, ∀ node, top.Reaches node → node.kind.isNamed → node.kind ≠ .error →
      node.checkHere = .ok ()) → ∀ top ∈ nodes, top.check = .ok ()
  | [], _ => List.forall_mem_nil _
  | top :: rest, h => List.forall_mem_cons.mpr
    ⟨check_of_reaches top (h top List.mem_cons_self),
      check_of_mem rest fun other hother => h other (List.mem_cons_of_mem _ hother)⟩

end

/-- A tree passes the check if and only if each named node that is no error, and that can be reached
without passing below an error or an unnamed leaf, is described by an entry of the schema. -/
theorem check_eq_ok_iff (top : Node) :
    top.check = .ok () ↔ ∀ node, top.Reaches node → node.kind.isNamed → node.kind ≠ .error →
      ∃ type ∈ Schema.entries, type.Describes node := by
  constructor
  · intro htop node hreached hnamed hsound
    have hcheck := check_eq_ok_iff_children.mp (hreached.check_eq_ok htop) hnamed hsound
    exact checkHere_eq_ok_iff.mp hcheck.1
  · intro h
    exact check_of_reaches top fun node hreached hnamed hsound =>
      checkHere_eq_ok_iff.mpr (h node hreached hnamed hsound)

end Node

end LosslessSyntax
