import LosslessSyntax.Proofs.Extents
import LosslessSyntax.Proofs.Reuse
/-!
Which old items a change spares, and what is offered for the positions where they stand now. The
side of the change that an item is on is told by how far its tokens have moved, so an item behind a
change that moves nothing is looked for in front of it.
-/
namespace LosslessSyntax

open Text (byteLength)

namespace ChangedRange

inductive Side where
  | before
  | behind
deriving DecidableEq, Repr

namespace Side

def distance (range : ChangedRange) : Side → Int
  | before => 0
  | behind => range.delta

def Has (range : ChangedRange) (span : Span) : Side → Prop
  | before => span.stop.toNat ≤ range.start
  | behind => range.oldEnd ≤ span.start.toNat

instance (range : ChangedRange) (span : Span) (side : Side) : Decidable (side.Has range span) := by
  cases side <;> unfold Has <;> infer_instance

@[simp] theorem distance_before (range : ChangedRange) : before.distance range = 0 := rfl

@[simp] theorem distance_behind (range : ChangedRange) : behind.distance range = range.delta := rfl

@[simp] theorem has_before {range : ChangedRange} {span : Span} :
    before.Has range span ↔ span.stop.toNat ≤ range.start := Iff.rfl

@[simp] theorem has_behind {range : ChangedRange} {span : Span} :
    behind.Has range span ↔ range.oldEnd ≤ span.start.toNat := Iff.rfl

end Side

/-- The tokens that an old item depends on are all on one side of the change, and from a position on
there are tokens of the same kinds, with their spans moved as that side moves. -/
structure Spares (range : ChangedRange) (side : Side) (old new : TokenStream) (extent : ItemExtent)
    (position : Nat) : Prop where
  bound : position + (extent.lookahead - extent.firstToken) ≤ new.body.size
  has : ∀ offset ≤ extent.lookahead - extent.firstToken,
    side.Has range (old.get (extent.firstToken + offset)).span
  kind : ∀ offset ≤ extent.lookahead - extent.firstToken,
    new.kind (position + offset) = old.kind (extent.firstToken + offset)
  span : ∀ offset ≤ extent.lookahead - extent.firstToken,
    (new.get (position + offset)).span =
      (old.get (extent.firstToken + offset)).span.shifted (side.distance range)

instance (range : ChangedRange) (side : Side) (old new : TokenStream) (extent : ItemExtent)
    (position : Nat) : Decidable (range.Spares side old new extent position) :=
  decidable_of_iff
    (position + (extent.lookahead - extent.firstToken) ≤ new.body.size ∧
      ∀ offset ∈ List.range (extent.lookahead - extent.firstToken + 1),
        side.Has range (old.get (extent.firstToken + offset)).span ∧
        new.kind (position + offset) = old.kind (extent.firstToken + offset) ∧
        (new.get (position + offset)).span =
          (old.get (extent.firstToken + offset)).span.shifted (side.distance range))
    (by
      simp only [List.mem_range, Nat.lt_succ_iff]
      constructor
      · intro h
        exact ⟨h.1, fun offset hle => (h.2 offset hle).1, fun offset hle => (h.2 offset hle).2.1,
          fun offset hle => (h.2 offset hle).2.2⟩
      · intro h
        exact ⟨h.bound, fun offset hle => ⟨h.has offset hle, h.kind offset hle,
          h.span offset hle⟩⟩)

variable {range : ChangedRange} {side : Side} {old new : TokenStream} {extent : ItemExtent}
  {position : Nat} {oldSource source : String}

theorem toOld?_lt (h : range.start ≤ range.oldEnd) {offset later before after : Nat}
    (hlt : offset < later) (hbefore : range.toOld? offset = some before)
    (hafter : range.toOld? later = some after) : before < after := by
  unfold toOld? at hbefore hafter
  grind

namespace Spares

theorem has_first (h : range.Spares side old new extent position) :
    side.Has range (old.get extent.firstToken).span :=
  h.has 0 (Nat.zero_le _)

theorem span_first (h : range.Spares side old new extent position) :
    (new.get position).span = (old.get extent.firstToken).span.shifted (side.distance range) :=
  h.span 0 (Nat.zero_le _)

theorem toOld?_start (h : range.Spares side old new extent position)
    (haccounts : range.Accounts oldSource source) (hold : old.IsOf oldSource)
    (hfirst : extent.firstToken < old.body.size) :
    range.toOld? (new.get position).span.start.toNat =
      some (old.get extent.firstToken).span.start.toNat := by
  have hlt := (hold.ordered haccounts.oldBound).lt _ hfirst
  have hmem : old.get extent.firstToken ∈ tokenizeSignificant oldSource :=
    hold ▸ old.get_mem_toList extent.firstToken
  have hstop := (span_of_mem_tokenizeSignificant haccounts.oldBound hmem).2
  have hstart := haccounts.agrees.1
  have hend := haccounts.agrees.2.1
  have hhas := h.has_first
  have hspan := h.span_first
  cases side with
  | before =>
    rw [Side.has_before] at hhas
    rw [Side.distance_before, Span.shifted_zero] at hspan
    rw [hspan, toOld?, if_pos (by omega)]
  | behind =>
    rw [Side.has_behind] at hhas
    have hmoved : (new.get position).span.start.toNat =
        (old.get extent.firstToken).span.start.toNat - range.oldEnd + range.newEnd := by
      rw [hspan]
      exact haccounts.toNat_moveOffset hhas (by omega)
    rw [hmoved, toOld?, if_neg (by omega), if_pos (by omega), Option.some.injEq]
    omega

end Spares

end ChangedRange

namespace ItemExtent

def movedTo (extent : ItemExtent) (position : Nat) : ItemExtent :=
  ⟨position, position + (extent.endToken - extent.firstToken),
    position + (extent.lookahead - extent.firstToken)⟩

end ItemExtent

namespace Reuse

variable {reuse : Reuse} {stream : TokenStream} {position : Nat} {oldSource source : String}

/-- What is known of the old tree while a changed source is read. -/
structure IsOver (reuse : Reuse) (oldSource source : String) : Prop where
  accounts : reuse.range.Accounts oldSource source
  stream : reuse.old.stream.IsOf oldSource
  tile : ItemExtent.Tile reuse.old.stream.body.size 0 reuse.old.items
  length : reuse.old.root.children.length = reuse.old.items.length

theorem IsOver.within (h : reuse.IsOver oldSource source) {index : Nat} {extent : ItemExtent}
    (hitem : reuse.old.items[index]? = some extent) :
    extent.Within reuse.old.stream.body.size :=
  h.tile.within extent (List.mem_of_getElem? hitem)

theorem itemStart?_eq {extent : ItemExtent} (h : extent.firstToken < reuse.old.stream.body.size) :
    reuse.itemStart? extent =
      some (reuse.old.stream.get extent.firstToken).span.start.toNat := by
  rw [itemStart?, TokenStream.get?_eq_some_iff.mpr ⟨h.le, rfl⟩, Option.map_some]

theorem firstFrom_le (index : Nat) {items : List ItemExtent} {count : Nat} {extent : ItemExtent}
    {offset start : Nat} (hitem : items[count]? = some extent)
    (hstart : reuse.itemStart? extent = some start) (hle : offset ≤ start) :
    reuse.firstFrom offset items index ≤ index + count := by
  induction items generalizing index count with
  | nil => contradiction
  | cons first rest ih =>
    unfold firstFrom
    split
    · exact Nat.le_add_right _ _
    · rename_i start' hstart'
      split
      · rename_i hlt
        cases count with
        | zero =>
          obtain rfl := Option.some.inj hitem
          obtain rfl := Option.some.inj (hstart.symm.trans hstart')
          exact absurd hlt (Nat.not_lt.mpr hle)
        | succ count =>
          have hrest := ih (index + 1) hitem
          omega
      · exact Nat.le_add_right _ _

theorem firstFrom_append {front back : List ItemExtent} {index offset : Nat}
    (h : ∀ extent ∈ front, ∃ start, reuse.itemStart? extent = some start ∧ start < offset) :
    reuse.firstFrom offset (front ++ back) index =
      reuse.firstFrom offset back (index + front.length) := by
  induction front generalizing index with
  | nil => rfl
  | cons first front ih =>
    obtain ⟨⟨start, hstart, hlt⟩, hfront⟩ := List.forall_mem_cons.mp h
    rw [List.cons_append, firstFrom, hstart]
    dsimp only
    rw [if_pos hlt, ih hfront, List.length_cons, Nat.add_right_comm, Nat.add_assoc]

theorem firstFrom_cons {extent : ItemExtent} {back : List ItemExtent} {index start : Nat}
    (h : reuse.itemStart? extent = some start) :
    reuse.firstFrom start (extent :: back) index = index := by
  rw [firstFrom, h]
  dsimp only
  rw [if_neg (Nat.lt_irrefl start)]

theorem IsOver.itemStart?_lt (h : reuse.IsOver oldSource source) {index : Nat}
    {extent : ItemExtent} (hitem : reuse.old.items[index]? = some extent) :
    ∀ earlier ∈ reuse.old.items.take index, ∃ start, reuse.itemStart? earlier = some start ∧
      start < (reuse.old.stream.get extent.firstToken).span.start.toNat := by
  intro earlier hearlier
  have hfirst := (h.within hitem).first_lt
  have hpairwise := h.tile.pairwise
  obtain ⟨hindex, rfl⟩ := List.getElem?_eq_some_iff.mp hitem
  rw [← List.take_append_drop index reuse.old.items, List.drop_eq_getElem_cons hindex] at hpairwise
  have hlt := (List.pairwise_append.mp hpairwise).2.2 earlier hearlier _ List.mem_cons_self
  have hordered := h.stream.ordered h.accounts.oldBound
  refine ⟨_, itemStart?_eq (hlt.trans hfirst), ?_⟩
  exact (hordered.lt _ (hlt.trans hfirst)).trans_le (hordered.le _ _ hlt hfirst.le)

theorem IsOver.firstFrom_eq (h : reuse.IsOver oldSource source) {index : Nat}
    {extent : ItemExtent} (hitem : reuse.old.items[index]? = some extent)
    (hnext : reuse.nextItem ≤ index) :
    reuse.firstFrom (reuse.old.stream.get extent.firstToken).span.start.toNat
      (reuse.old.items.drop reuse.nextItem) reuse.nextItem = index := by
  have hfirst := (h.within hitem).first_lt
  have hearlier := h.itemStart?_lt hitem
  obtain ⟨hindex, rfl⟩ := List.getElem?_eq_some_iff.mp hitem
  have hsplit : reuse.old.items.drop reuse.nextItem =
      (reuse.old.items.take index).drop reuse.nextItem ++
        reuse.old.items[index] :: reuse.old.items.drop (index + 1) := by
    rw [← List.drop_eq_getElem_cons hindex, ← List.drop_append_of_le_length (by simp; omega),
      List.take_append_drop]
  rw [hsplit, firstFrom_append fun earlier hmem => hearlier earlier (List.mem_of_mem_drop hmem),
    firstFrom_cons (itemStart?_eq hfirst), List.length_drop, List.length_take]
  omega

theorem IsOver.firstFrom_le_index (h : reuse.IsOver oldSource source) {index offset : Nat}
    {extent : ItemExtent} (hitem : reuse.old.items[index]? = some extent)
    (hnext : reuse.nextItem ≤ index)
    (hle : offset ≤ (reuse.old.stream.get extent.firstToken).span.start.toNat) :
    reuse.firstFrom offset (reuse.old.items.drop reuse.nextItem) reuse.nextItem ≤ index := by
  have hdrop : (reuse.old.items.drop reuse.nextItem)[index - reuse.nextItem]? = some extent := by
    rw [List.getElem?_drop, Nat.add_sub_cancel' hnext, hitem]
  have := firstFrom_le reuse.nextItem hdrop (itemStart?_eq (h.within hitem).first_lt) hle
  omega

section

variable {side : ChangedRange.Side} {extent : ItemExtent}

/-- Kinds and spans of a spared item are as they should be, and what is left to ask is on which side
of the change its tokens are. -/
theorem tokenUnchanged_of_spares (hextent : extent.Within reuse.old.stream.body.size)
    (hspares : reuse.range.Spares side reuse.old.stream stream extent position) {offset : Nat}
    (hoffset : offset ≤ extent.lookahead - extent.firstToken) :
    reuse.tokenUnchanged stream (side.distance reuse.range) (extent.firstToken + offset)
        (position + offset) =
      if side.distance reuse.range = 0 then
        decide ((reuse.old.stream.get (extent.firstToken + offset)).span.stop.toNat ≤
          reuse.range.start)
      else decide (reuse.range.oldEnd ≤
        (reuse.old.stream.get (extent.firstToken + offset)).span.start.toNat) := by
  have holdBound : extent.firstToken + offset ≤ reuse.old.stream.body.size := by
    have := hextent.lt
    have := hextent.looked
    have := hextent.bound
    omega
  have hnewBound : position + offset ≤ stream.body.size := by
    have := hspares.bound
    omega
  have hkind : (stream.get (position + offset)).kind =
    (reuse.old.stream.get (extent.firstToken + offset)).kind := hspares.kind offset hoffset
  rw [tokenUnchanged, TokenStream.get?_eq_some_iff.mpr ⟨holdBound, rfl⟩,
    TokenStream.get?_eq_some_iff.mpr ⟨hnewBound, rfl⟩]
  simp [hkind, hspares.span offset hoffset]

theorem itemUnchanged_of_spares (hextent : extent.Within reuse.old.stream.body.size)
    (hspares : reuse.range.Spares side reuse.old.stream stream extent position)
    (hside : side = .behind → reuse.range.delta ≠ 0) :
    reuse.itemUnchanged stream position (side.distance reuse.range) extent := by
  apply List.all_eq_true.mpr
  intro offset hoffset
  have hle : offset ≤ extent.lookahead - extent.firstToken := by
    have := List.mem_range.mp hoffset
    have := hextent.lt
    have := hextent.looked
    omega
  have hhas := hspares.has offset hle
  rw [tokenUnchanged_of_spares hextent hspares hle]
  cases side with
  | before =>
    rw [ChangedRange.Side.distance_before, if_pos rfl]
    exact decide_eq_true hhas
  | behind =>
    rw [ChangedRange.Side.distance_behind, if_neg (hside rfl)]
    exact decide_eq_true hhas

/-- An item behind a change that moves nothing is looked for in front of the change. -/
theorem itemUnchanged_behind (h : reuse.IsOver oldSource source)
    (hextent : extent.Within reuse.old.stream.body.size)
    (hspares : reuse.range.Spares .behind reuse.old.stream stream extent position)
    (hdelta : reuse.range.delta = 0) :
    reuse.itemUnchanged stream position (ChangedRange.Side.behind.distance reuse.range) extent =
      false := by
  apply List.all_eq_false.mpr
  have hlooked := hextent.lt.trans_le hextent.looked
  refine ⟨0, List.mem_range.mpr (by omega), ?_⟩
  rw [tokenUnchanged_of_spares hextent hspares (Nat.zero_le _), Nat.add_zero,
    ChangedRange.Side.distance_behind, if_pos hdelta, decide_eq_true_iff]
  have hlt := (h.stream.ordered h.accounts.oldBound).lt _ hextent.first_lt
  have hhas := ChangedRange.Side.has_behind.mp hspares.has_first
  have hstart := h.accounts.agrees.1
  omega

theorem moved_of_spares (h : reuse.IsOver oldSource source)
    (hextent : extent.Within reuse.old.stream.body.size)
    (hspares : reuse.range.Spares side reuse.old.stream stream extent position) :
    reuse.moved (reuse.old.stream.get extent.firstToken).span.start.toNat =
      side.distance reuse.range := by
  have hlt := (h.stream.ordered h.accounts.oldBound).lt _ hextent.first_lt
  have hstart := h.accounts.agrees.1
  have hhas := hspares.has_first
  unfold moved
  cases side with
  | before =>
    rw [ChangedRange.Side.has_before] at hhas
    exact if_pos (by omega)
  | behind =>
    rw [ChangedRange.Side.has_behind] at hhas
    exact if_neg (by omega)

theorem find_of_spares (h : reuse.IsOver oldSource source) {index : Nat} {node : Node}
    (hitem : reuse.old.items[index]? = some extent)
    (hnode : reuse.old.root.children[index]? = some node)
    (hspares : reuse.range.Spares side reuse.old.stream stream extent position)
    (hnext : reuse.nextItem ≤ index) :
    (reuse.find stream position).1 =
      if side = .behind ∧ reuse.range.delta = 0 then none
      else some (node.shifted (side.distance reuse.range), extent.movedTo position) := by
  have hextent := h.within hitem
  have hfirst := hextent.first_lt
  have hplace : ((stream.get? position).bind fun token =>
      reuse.range.toOld? token.span.start.toNat) =
        some (reuse.old.stream.get extent.firstToken).span.start.toNat := by
    rw [TokenStream.get?_eq_some_iff.mpr ⟨Nat.le_of_add_right_le hspares.bound, rfl⟩,
      Option.bind_some]
    exact hspares.toOld?_start h.accounts h.stream hfirst
  rw [find, hplace]
  dsimp only
  rw [h.firstFrom_eq hitem hnext, hitem, hnode]
  dsimp only
  rw [itemStart?_eq hfirst, moved_of_spares h hextent hspares]
  by_cases hwrong : side = .behind ∧ reuse.range.delta = 0
  · obtain ⟨rfl, hdelta⟩ := hwrong
    rw [itemUnchanged_behind h hextent hspares hdelta]
    simp [hdelta]
  · have hside : side = .behind → reuse.range.delta ≠ 0 := fun hside hdelta =>
      hwrong ⟨hside, hdelta⟩
    rw [itemUnchanged_of_spares hextent hspares hside, if_neg hwrong]
    simp [ItemExtent.movedTo]

end

end Reuse

end LosslessSyntax
