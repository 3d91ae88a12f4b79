import LosslessSyntax.Proofs.Reparse
import LosslessSyntax.Proofs.Reuse.Spared
import Mathlib.Logic.Relation
/-!
Reuse is complete: wherever an old tree is asked for an item while a changed source is read, an item
that the change has spared is given, unless it is behind a change that moves nothing. The search
only goes forward, and it goes past no item that is still to be asked for.
-/
namespace LosslessSyntax

open Text (byteLength)

namespace Reuse

variable {reuse : Reuse} {stream : TokenStream} {position : Nat} {oldSource source : String}

theorem take_eq (reuse : Reuse) (stream : TokenStream) (position : Nat) :
    ∃ reused reparsed, reuse.take stream position =
      ((reuse.find stream position).1,
        ⟨reuse.old, reuse.range, (reuse.find stream position).2, reused, reparsed⟩) := by
  unfold take
  split
  · rename_i found next hfind
    exact ⟨_, _, by rw [hfind]⟩
  · rename_i next hfind
    exact ⟨_, _, by rw [hfind]⟩

@[simp] theorem take_fst (reuse : Reuse) (stream : TokenStream) (position : Nat) :
    (reuse.take stream position).1 = (reuse.find stream position).1 := by
  obtain ⟨_, _, h⟩ := reuse.take_eq stream position
  rw [h]

theorem IsOver.offset_lt (h : reuse.IsOver oldSource source) (hnew : stream.IsOf source)
    {later index offset : Nat} {side : ChangedRange.Side} {extent : ItemExtent}
    (hitem : reuse.old.items[index]? = some extent)
    (hspares : reuse.range.Spares side reuse.old.stream stream extent later)
    (hlt : position < later)
    (hoffset : reuse.range.toOld? (stream.get position).span.start.toNat = some offset) :
    offset < (reuse.old.stream.get extent.firstToken).span.start.toNat := by
  have hbound := Nat.le_of_add_right_le hspares.bound
  have hordered := hnew.ordered h.accounts.newBound
  apply ChangedRange.toOld?_lt h.accounts.agrees.1 _ hoffset
    (hspares.toOld?_start h.accounts h.stream (h.within hitem).first_lt)
  exact (hordered.lt _ (hlt.trans_le hbound)).trans_le (hordered.le _ _ hlt hbound)

theorem IsOver.find_le (h : reuse.IsOver oldSource source) (hnew : stream.IsOf source)
    {later index : Nat} {side : ChangedRange.Side} {extent : ItemExtent}
    (hitem : reuse.old.items[index]? = some extent)
    (hspares : reuse.range.Spares side reuse.old.stream stream extent later)
    (hlt : position < later) (hnext : reuse.nextItem ≤ index) :
    (reuse.find stream position).2 ≤ index := by
  have hstart := itemStart?_eq (h.within hitem).first_lt
  have hposition := hlt.le.trans (Nat.le_of_add_right_le hspares.bound)
  unfold find
  split
  · exact hnext
  · rename_i offset hoffset
    rw [TokenStream.get?_eq_some_iff.mpr ⟨hposition, rfl⟩, Option.bind_some] at hoffset
    have hbehind := h.offset_lt hnew hitem hspares hlt hoffset
    have hle := h.firstFrom_le_index hitem hnext hbehind.le
    dsimp only
    split
    · rename_i found node hfound hnode
      split
      · rename_i hoffers
        -- the item that is found starts before the one that is spared
        apply Nat.lt_of_le_of_ne hle
        intro heq
        rw [heq, hitem] at hfound
        obtain rfl := Option.some.inj hfound
        simp only [Bool.and_eq_true, decide_eq_true_eq, hstart, Option.some.injEq] at hoffers
        omega
      · exact hle
    · exact hle

/-- Before an old tree is asked for an item at a position, no item has been passed over that is
spared for that position or a later one. -/
structure Ready (reuse : Reuse) (old : SyntaxTree) (range : ChangedRange) (stream : TokenStream)
    (position : Nat) : Prop where
  old_eq : reuse.old = old
  range_eq : reuse.range = range
  ahead : ∀ later, position ≤ later → ∀ index extent side, old.items[index]? = some extent →
    range.Spares side old.stream stream extent later → reuse.nextItem ≤ index

variable {old : SyntaxTree} {range : ChangedRange}

theorem ready_start (old : SyntaxTree) (range : ChangedRange) (stream : TokenStream)
    (position : Nat) : (start old range).Ready old range stream position :=
  ⟨rfl, rfl, fun _ _ index _ _ _ _ => index.zero_le⟩

theorem Ready.isOver (h : reuse.Ready old range stream position)
    (hover : (start old range).IsOver oldSource source) : reuse.IsOver oldSource source := by
  obtain ⟨rfl, rfl, -⟩ := h
  exact ⟨hover.accounts, hover.stream, hover.tile, hover.length⟩

theorem Ready.take (h : reuse.Ready old range stream position)
    (hover : (start old range).IsOver oldSource source) (hnew : stream.IsOf source) {later : Nat}
    (hlt : position < later) : (reuse.take stream position).2.Ready old range stream later := by
  have hreuse := h.isOver hover
  obtain ⟨rfl, rfl, hahead⟩ := h
  obtain ⟨_, _, htake⟩ := reuse.take_eq stream position
  rw [htake]
  constructor
  case old_eq => rfl
  case range_eq => rfl
  case ahead =>
    intro place hplace index extent side hitem hspares
    exact hreuse.find_le hnew hitem hspares (hlt.trans_le hplace)
      (hahead place (hlt.le.trans hplace) index extent side hitem hspares)

theorem Ready.take_of_spares (h : reuse.Ready old range stream position)
    (hover : (start old range).IsOver oldSource source) {index : Nat} {extent : ItemExtent}
    {side : ChangedRange.Side} (hitem : old.items[index]? = some extent)
    (hspares : range.Spares side old.stream stream extent position) :
    ∃ node, old.root.children[index]? = some node ∧
      (reuse.take stream position).1 =
        if side = .behind ∧ range.delta = 0 then none
        else some (node.shifted (side.distance range), extent.movedTo position) := by
  have hreuse := h.isOver hover
  have hindex := (List.getElem?_eq_some_iff.mp hitem).1
  have hchild : index < old.root.children.length := hindex.trans_eq hover.length.symm
  obtain ⟨rfl, rfl, hahead⟩ := h
  refine ⟨_, List.getElem?_eq_getElem hchild, ?_⟩
  rw [take_fst]
  exact find_of_spares hreuse hitem (List.getElem?_eq_getElem hchild) hspares
    (hahead position le_rfl index extent side hitem hspares)

end Reuse

namespace Setting

/-- From the start of one item to that of the next, with an old tree at hand: the tree is asked for
the item, which is read if the tree has none. -/
inductive Step (setting : Setting) : Reuse × Cursor → Reuse × Cursor → Prop where
  | taken {reuse next : Reuse} {cursor : Cursor} {item : Node × ItemExtent}
      (kind : setting.stream.kind cursor.position ≠ .eof)
      (take : reuse.take setting.stream cursor.position = (some item, next)) :
      Step setting (reuse, cursor)
        (next, (cursor.examineHere setting.stream).seek setting.stream item.2.endToken)
  | read {reuse next : Reuse} {cursor after : Cursor} {item : Node × ItemExtent}
      (kind : setting.stream.kind cursor.position ≠ .eof)
      (take : reuse.take setting.stream cursor.position = (none, next))
      (read : setting.parseItem (cursor.examineHere setting.stream) = .done item after) :
      Step setting (reuse, cursor) (next, after)

def Steps (setting : Setting) : Reuse × Cursor → Reuse × Cursor → Prop :=
  Relation.ReflTransGen setting.Step

theorem steps_of_parseItems {setting : Setting} {fuel : Nat} {reuse : Reuse} {cursor last : Cursor}
    {list : ItemList} (h : setting.parseItems fuel (some reuse) cursor = .done list last) :
    ∃ rest place, list.reuse = some rest ∧ setting.Steps (reuse, cursor) (rest, place) ∧
      setting.stream.kind place.position = .eof := by
  induction fuel generalizing reuse cursor list last with
  | zero => simp [parseItems] at h
  | succ fuel ih =>
    by_cases hkind : setting.stream.kind cursor.position = .eof
    · simp only [parseItems, Cursor.examineHere_position, hkind, if_true] at h
      obtain ⟨rfl, -⟩ : _ ∧ _ := by simpa using h
      exact ⟨reuse, cursor, rfl, .refl, hkind⟩
    · rcases htake : reuse.take setting.stream cursor.position with ⟨found, next⟩
      simp only [parseItems, Cursor.examineHere_position, hkind, if_false, Reuse.offer, htake] at h
      cases found with
      | some item =>
        dsimp only at h
        split at h
        · rename_i more _ hmore
          obtain ⟨rfl, rfl⟩ : _ ∧ _ := by simpa using h
          obtain ⟨rest, place, hrest, hsteps, heof⟩ := ih hmore
          exact ⟨rest, place, hrest, .head (.taken hkind htake) hsteps, heof⟩
        · contradiction
      | none =>
        dsimp only at h
        split at h
        · rename_i item after hread
          split at h
          · rename_i more _ hmore
            obtain ⟨rfl, rfl⟩ : _ ∧ _ := by simpa using h
            obtain ⟨rest, place, hrest, hsteps, heof⟩ := ih hmore
            exact ⟨rest, place, hrest, .head (.read hkind htake hread) hsteps, heof⟩
          · contradiction
        · contradiction

variable {stream : TokenStream} {dialect : Dialect} {oldSource source : String}
  {old : SyntaxTree} {range : ChangedRange}

theorem Step.asks {reuse next : Reuse} {cursor after : Cursor}
    (h : (top stream dialect).Step (reuse, cursor) (next, after))
    (hover : reuse.IsOver oldSource source) :
    next = (reuse.take stream cursor.position).2 ∧ cursor.position < after.position := by
  cases h with
  | @taken _ _ _ item kind take =>
    have htake : reuse.take stream cursor.position = (some item, next) := take
    refine ⟨by rw [htake], ?_⟩
    have hfind : (reuse.find stream cursor.position).1 = some item := by
      rw [← Reuse.take_fst, htake]
    obtain ⟨index, extent, node, offset, hextent, -, -, rfl⟩ := Reuse.eq_of_find hfind
    have hlt := (hover.within hextent).lt
    have hsize : cursor.position < stream.body.size := TokenStream.lt_of_kind_ne_eof kind
    simp only [Cursor.seek, TokenStream.clamp, top]
    omega
  | @read _ _ _ _ item kind take read =>
    have htake : reuse.take stream cursor.position = (none, next) := take
    refine ⟨by rw [htake], ?_⟩
    obtain ⟨item', after', hread, hitem, hafter⟩ :=
      parseItem_eq_done dialect (cursor.examineHere stream) kind
    obtain ⟨rfl, rfl⟩ : _ ∧ _ := by simpa using hread.symm.trans read
    rw [hafter]
    exact hitem.lt

theorem Steps.ready {reuse : Reuse} {cursor : Cursor}
    (h : (top stream dialect).Steps (.start old range, .start) (reuse, cursor))
    (hover : (Reuse.start old range).IsOver oldSource source) (hnew : stream.IsOf source) :
    reuse.Ready old range stream cursor.position := by
  generalize hlast : (reuse, cursor) = last at h
  induction h generalizing reuse cursor with
  | refl =>
    obtain ⟨rfl, rfl⟩ := Prod.mk.inj hlast
    exact Reuse.ready_start old range stream _
  | @tail middle last _ step ih =>
    subst hlast
    have hready := ih rfl
    obtain ⟨rfl, hlt⟩ := step.asks (hready.isOver hover)
    exact hready.take hover hnew hlt

end Setting

namespace SyntaxTree

theorem exists_steps_of_ofTokens {source : String} {tokens : List Token} {dialect : Dialect}
    {start : Reuse} {tree : SyntaxTree} {rest : Option Reuse}
    (h : ofTokens source tokens dialect (some start) = .ok (tree, rest)) :
    ∃ reuse last, rest = some reuse ∧
      (Setting.top tree.stream dialect).Steps (start, .start) (reuse, last) ∧
      tree.stream.kind last.position = .eof := by
  rcases hstream : streamOf tokens with diagnostic | stream
  · simp [ofTokens, Precedence.validate_table, hstream, bind, Except.bind] at h
  rcases hfile : (Setting.top stream dialect).parseSourceFile (some start) .start with
    ⟨file, after⟩ | ⟨diagnostic, after⟩
  · have hresult : tree.stream = stream ∧ file.reuse = rest := by
      simp only [ofTokens, Precedence.validate_table, hstream, hfile, bind, Except.bind, pure,
        Except.pure, Except.ok.injEq, Prod.mk.injEq] at h
      obtain ⟨rfl, rfl⟩ := h
      exact ⟨rfl, rfl⟩
    obtain ⟨rfl, rfl⟩ := hresult
    unfold Setting.parseSourceFile at hfile
    split at hfile
    · rename_i list last hlist
      obtain ⟨rfl, -⟩ : _ ∧ _ := by simpa using hfile
      obtain ⟨reuse, place, hreuse, hsteps, heof⟩ := Setting.steps_of_parseItems hlist
      exact ⟨reuse, place, hreuse, hsteps, heof⟩
    · contradiction
  · simp [ofTokens, Precedence.validate_table, hstream, hfile, bind, Except.bind] at h

/-- Wherever an old tree is asked for an item while a new one is read, an old item that the change
has spared, and that stands there now, is given, with its node moved. The one exception is an item
behind a change that moves nothing, which is never given. -/
def OffersSpared (old tree : SyntaxTree) (range : ChangedRange) : Prop :=
  ∀ (reuse : Reuse) (cursor : Cursor),
    (Setting.top tree.stream tree.dialect).Steps (.start old range, .start) (reuse, cursor) →
    ∀ (index : Nat) (extent : ItemExtent) (side : ChangedRange.Side),
      old.items[index]? = some extent →
      range.Spares side old.stream tree.stream extent cursor.position →
      ∃ node, old.root.children[index]? = some node ∧
        (reuse.take tree.stream cursor.position).1 =
          if side = .behind ∧ range.delta = 0 then none
          else some (node.shifted (side.distance range), extent.movedTo cursor.position)

/-- A source that differs from that of an old tree in a range is read by steps up to its end, and
with each of them the old tree offers what the change has spared. -/
theorem offersSpared_reparseRange {range : ChangedRange} {oldSource source : String}
    (dialect : Dialect) (h : range.Accounts oldSource source) :
    ∃ old tree rest last, parse oldSource dialect = .ok old ∧ parse source dialect = .ok tree ∧
      old.reparseRange source range = .ok (tree, some rest) ∧
      (Setting.top tree.stream tree.dialect).Steps (.start old range, .start) (rest, last) ∧
      tree.stream.kind last.position = .eof ∧ old.OffersSpared tree range := by
  obtain ⟨oldStream, oldItems, hold, holdItems, hparseOld⟩ := parse_eq_ok dialect h.oldBound
  obtain ⟨tree, rest, hparse, hreparse⟩ := reparseRange_eq_ok hparseOld h
  obtain ⟨-, stream, items, hnew, -, rfl⟩ := eq_ofItems_of_parse hparse
  obtain ⟨rest, last, rfl, hsteps, heof⟩ := exists_steps_of_ofTokens hreparse
  refine ⟨_, _, rest, last, hparseOld, hparse, hreparse, hsteps, heof, ?_⟩
  have hover : (Reuse.start (ofItems oldSource oldStream oldItems dialect) range).IsOver oldSource
      source := by
    constructor
    case accounts => exact h
    case stream => exact hold
    case tile => exact holdItems.tile (fun _ => hold.kind_eq_eof_iff.mp) (Nat.zero_le _)
    case length => simp [Reuse.start, ofItems, rootOf, Node.ofChildren]
  intro reuse cursor hasked index extent side hitem hspares
  exact (Setting.Steps.ready hasked hover hnew).take_of_spares hover hitem hspares

/-- The first of two functions is given a longer name. -/
theorem offersSpared_reparseRange_longer :
    (⟨3, 4, 6⟩ : ChangedRange).Accounts "fn f() \x7b\x7d fn g() \x7b\x7d"
        "fn foo() \x7b\x7d fn g() \x7b\x7d" ∧
      ∃ old tree rest last, parse "fn f() \x7b\x7d fn g() \x7b\x7d" .canonical = .ok old ∧
        parse "fn foo() \x7b\x7d fn g() \x7b\x7d" .canonical = .ok tree ∧
        old.reparseRange "fn foo() \x7b\x7d fn g() \x7b\x7d" ⟨3, 4, 6⟩ = .ok (tree, some rest) ∧
        (Setting.top tree.stream tree.dialect).Steps (.start old ⟨3, 4, 6⟩, .start) (rest, last) ∧
        tree.stream.kind last.position = .eof ∧ old.OffersSpared tree ⟨3, 4, 6⟩ := by
  have haccounts : (⟨3, 4, 6⟩ : ChangedRange).Accounts "fn f() \x7b\x7d fn g() \x7b\x7d"
      "fn foo() \x7b\x7d fn g() \x7b\x7d" := ⟨by decide, by decide, by decide⟩
  exact ⟨haccounts, offersSpared_reparseRange .canonical haccounts⟩

/-- The first of two functions is given a name of the same length. The second one is spared, and it
is read again. -/
theorem take_behind_rename :
    (⟨3, 4, 4⟩ : ChangedRange).Accounts "fn f() \x7b\x7d fn g() \x7b\x7d"
        "fn h() \x7b\x7d fn g() \x7b\x7d" ∧
      ∃ old tree reuse cursor extent,
        parse "fn f() \x7b\x7d fn g() \x7b\x7d" .canonical = .ok old ∧
        parse "fn h() \x7b\x7d fn g() \x7b\x7d" .canonical = .ok tree ∧
        (Setting.top tree.stream tree.dialect).Steps (.start old ⟨3, 4, 4⟩, .start)
          (reuse, cursor) ∧
        old.items[1]? = some extent ∧
        ChangedRange.Spares ⟨3, 4, 4⟩ .behind old.stream tree.stream extent cursor.position ∧
        (reuse.take tree.stream cursor.position).1 = none := by
  have hold : ∃ old, parse "fn f() \x7b\x7d fn g() \x7b\x7d" .canonical = .ok old ∧
      ((parse "fn h() \x7b\x7d fn g() \x7b\x7d" .canonical).toOption.any fun tree => decide (
        tree.stream.kind 0 ≠ .eof ∧
        ((Setting.top tree.stream tree.dialect).parseItem
          (Cursor.start.examineHere tree.stream)).cursor.position = 6 ∧
        old.items[1]? = some ⟨6, 12, 12⟩ ∧
        ChangedRange.Spares ⟨3, 4, 4⟩ .behind old.stream tree.stream ⟨6, 12, 12⟩ 6 ∧
        ((Reuse.start old ⟨3, 4, 4⟩).take tree.stream 0).1 = none ∧
        (((Reuse.start old ⟨3, 4, 4⟩).take tree.stream 0).2.take tree.stream 6).1 = none)) = true :=
    exists_parse_eq_ok (by decide +kernel)
  obtain ⟨old, hparseOld, hnew⟩ := hold
  obtain ⟨tree, hparse, hkind, hcursor, hitem, hspares, hfirst, hsecond⟩ := exists_parse_eq_ok hnew
  obtain ⟨item, after, hread, -, -⟩ :=
    Setting.parseItem_eq_done tree.dialect (Cursor.start.examineHere tree.stream) hkind
  rw [hread] at hcursor
  have hstep := Setting.Step.read hkind (Prod.ext hfirst rfl) hread
  refine ⟨⟨by decide, by decide, by decide⟩, old, tree, _, after, _, hparseOld, hparse,
    .single hstep, hitem, ?_⟩
  rw [show after.position = 6 from hcursor]
  exact ⟨hspares, hsecond⟩

end SyntaxTree

end LosslessSyntax
