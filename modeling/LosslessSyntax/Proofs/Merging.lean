import LosslessSyntax.Edit.Reparse
import LosslessSyntax.Proofs.Lexing.Bytes
import Mathlib.Data.List.Infix
/-!
Edits merge into one range. As long as each of them stays within the text that it applies to, the
first and the last text differ in the range only, so a true account of a change is never taken for
a false one. The merging needs no more than sizes of 64 bits, and none of its differences is below
zero.
-/
namespace LosslessSyntax

open Text (byteLength bytes)

/-- The largest size of 64 bits. -/
def maxSize : Nat := 18446744073709551615

/-- The longest text that memory has room for: its length is a signed word too. -/
def maxTextLength : Nat := 9223372036854775807

inductive SizeFault where
  | overflow
  | underflow
deriving DecidableEq, Repr

namespace SizeFault

def add (a b : Nat) : Except SizeFault Nat :=
  if a + b ≤ maxSize then .ok (a + b) else .error .overflow

def sub (a b : Nat) : Except SizeFault Nat :=
  if b ≤ a then .ok (a - b) else .error .underflow

theorem add_eq_ok {a b : Nat} (h : a + b ≤ maxSize) : add a b = .ok (a + b) := if_pos h

theorem sub_eq_ok {a b : Nat} (h : b ≤ a) : sub a b = .ok (a - b) := if_pos h

end SizeFault

namespace Edit

def replace (edit : Edit) (inserted text : List UInt8) : List UInt8 :=
  text.take edit.start ++ inserted ++ text.drop (edit.start + edit.removed)

/-- The text that comes of another by edits made one after the other, whatever they insert. The
texts in between need not be made of whole characters. -/
inductive Leads : List UInt8 → List Edit → List UInt8 → Prop where
  | done (text : List UInt8) : Leads text [] text
  | step {edit : Edit} {edits : List Edit} {inserted text new : List UInt8}
      (within : edit.start + edit.removed ≤ text.length) (length : inserted.length = edit.inserted)
      (tail : Leads (edit.replace inserted text) edits new) : Leads text (edit :: edits) new

def lengthAfter (length : Nat) (edits : List Edit) : Nat :=
  edits.foldl (fun length edit => length - edit.removed + edit.inserted) length

/-- Some edit reaches past the end of the text that the edits before it have left. -/
def Overreach (length : Nat) (edits : List Edit) : Prop :=
  ∃ earlier edit later, edits = earlier ++ edit :: later ∧
    lengthAfter length earlier < edit.start + edit.removed

/-- As far as the edits are within the text, no insertion makes it longer than a size can tell. -/
def SizesFit (length : Nat) (edits : List Edit) : Prop :=
  ∀ earlier, earlier <+: edits → ¬Overreach length earlier → lengthAfter length earlier ≤ maxSize

variable {length : Nat} {edit : Edit} {edits : List Edit}

@[simp] theorem lengthAfter_nil (length : Nat) : lengthAfter length [] = length := rfl

@[simp] theorem lengthAfter_cons (length : Nat) (edit : Edit) (edits : List Edit) :
    lengthAfter length (edit :: edits) =
      lengthAfter (length - edit.removed + edit.inserted) edits := rfl

theorem not_overreach_nil (length : Nat) : ¬Overreach length [] := by
  rintro ⟨earlier, edit, later, h, -⟩
  simp at h

theorem overreach_cons : Overreach length (edit :: edits) ↔
    length < edit.start + edit.removed ∨
      Overreach (length - edit.removed + edit.inserted) edits := by
  constructor
  · rintro ⟨earlier, other, later, h, hreach⟩
    cases earlier with
    | nil =>
      obtain ⟨rfl, rfl⟩ := List.cons.inj h
      exact .inl hreach
    | cons first earlier =>
      obtain ⟨rfl, rfl⟩ := List.cons.inj h
      exact .inr ⟨earlier, other, later, rfl, hreach⟩
  · rintro (hreach | ⟨earlier, other, later, rfl, hreach⟩)
    · exact ⟨[], edit, edits, rfl, hreach⟩
    · exact ⟨edit :: earlier, other, later, rfl, hreach⟩

theorem SizesFit.head (h : SizesFit length edits) : length ≤ maxSize :=
  h [] List.nil_prefix (not_overreach_nil length)

theorem SizesFit.tail (h : SizesFit length (edit :: edits))
    (hwithin : edit.start + edit.removed ≤ length) :
    SizesFit (length - edit.removed + edit.inserted) edits := by
  intro earlier hprefix hreach
  refine h (edit :: earlier) (List.cons_prefix_cons.mpr ⟨rfl, hprefix⟩) fun hcons => ?_
  rcases overreach_cons.mp hcons with hhead | htail
  · omega
  · exact hreach htail

theorem length_replace {inserted text : List UInt8}
    (hwithin : edit.start + edit.removed ≤ text.length)
    (hlength : inserted.length = edit.inserted) :
    (edit.replace inserted text).length = text.length - edit.removed + edit.inserted := by
  simp only [replace, List.length_append, List.length_take, List.length_drop]
  omega

end Edit

namespace ChangedRange

structure Spans (range : ChangedRange) (old new : Nat) : Prop where
  start_le_oldEnd : range.start ≤ range.oldEnd
  start_le_newEnd : range.start ≤ range.newEnd
  oldEnd_le : range.oldEnd ≤ old
  newEnd_le : range.newEnd ≤ new
  behind : old - range.oldEnd = new - range.newEnd

structure SameAround (range : ChangedRange) (old new : List UInt8) : Prop where
  before : old.take range.start = new.take range.start
  behind : old.drop range.oldEnd = new.drop range.newEnd

theorem agrees_of_sameAround {range : ChangedRange} {old new : List Char}
    (hspans : range.Spans (byteLength old) (byteLength new))
    (hsame : range.SameAround (bytes old) (bytes new)) : range.Agrees old new :=
  ⟨hspans.start_le_oldEnd, hspans.start_le_newEnd, hspans.oldEnd_le, hspans.newEnd_le,
    hspans.behind, hsame.before, hsame.behind⟩

variable {range : ChangedRange} {edit : Edit} {old length : Nat}

theorem spans_unchanged (length : Nat) : (unchanged length).Spans length length :=
  ⟨Nat.le_refl _, Nat.le_refl _, Nat.le_refl _, Nat.le_refl _, rfl⟩

theorem spans_ofEdit (hwithin : edit.start + edit.removed ≤ length) :
    (ofEdit edit).Spans length (length - edit.removed + edit.inserted) := by
  constructor <;> simp only [ofEdit] <;> omega

theorem Spans.extend (h : range.Spans old length) (hwithin : edit.start + edit.removed ≤ length) :
    (range.extend edit).Spans old (length - edit.removed + edit.inserted) := by
  obtain ⟨hold, hnew, holdEnd, hnewEnd, hbehind⟩ := h
  constructor <;> simp only [ChangedRange.extend] <;> omega

section Texts

variable {inserted before text : List UInt8}

theorem take_replace {n : Nat} (hwithin : edit.start + edit.removed ≤ text.length)
    (hn : n ≤ edit.start) : (edit.replace inserted text).take n = text.take n := by
  have hfront : n ≤ (text.take edit.start).length := by
    rw [List.length_take]
    omega
  rw [Edit.replace, List.append_assoc, List.take_append_of_le_length hfront, List.take_take,
    Nat.min_eq_left hn]

theorem drop_replace (hwithin : edit.start + edit.removed ≤ text.length)
    (hlength : inserted.length = edit.inserted) (n : Nat) :
    (edit.replace inserted text).drop (edit.start + edit.inserted + n) =
      text.drop (edit.start + edit.removed + n) := by
  have hfront : (text.take edit.start ++ inserted).length = edit.start + edit.inserted := by
    rw [List.length_append, List.length_take, hlength]
    omega
  rw [Edit.replace, ← hfront, List.drop_length_add_append, List.drop_drop]

theorem sameAround_ofEdit (hwithin : edit.start + edit.removed ≤ text.length)
    (hlength : inserted.length = edit.inserted) :
    (ofEdit edit).SameAround text (edit.replace inserted text) where
  before := (take_replace hwithin (Nat.le_refl _)).symm
  behind := (drop_replace hwithin hlength 0).symm

theorem SameAround.extend (h : range.SameAround before text)
    (hwithin : edit.start + edit.removed ≤ text.length)
    (hlength : inserted.length = edit.inserted) :
    (range.extend edit).SameAround before (edit.replace inserted text) where
  before := by
    have hstart := congrArg (List.take (min range.start edit.start)) h.before
    rw [List.take_take, List.take_take, Nat.min_eq_left (Nat.min_le_left _ _)] at hstart
    rw [ChangedRange.extend, hstart, take_replace hwithin (Nat.min_le_right _ _)]
  behind := by
    -- the bytes behind the edit that the range does not reach are dropped on both sides
    generalize hreach : edit.start + edit.removed - range.newEnd = reach
    generalize hrest : range.newEnd - (edit.start + edit.removed) = rest
    have hnewEnd : max range.newEnd (edit.start + edit.removed) - edit.removed + edit.inserted =
        edit.start + edit.inserted + rest := by
      omega
    have hmax : edit.start + edit.removed + rest = range.newEnd + reach := by
      omega
    have hbehind := congrArg (List.drop reach) h.behind
    rw [List.drop_drop, List.drop_drop] at hbehind
    simp only [ChangedRange.extend, hreach]
    rw [hnewEnd, drop_replace hwithin hlength, hmax, hbehind]

end Texts

def next (range : Option ChangedRange) (edit : Edit) : ChangedRange :=
  match range with
  | none => ofEdit edit
  | some range => range.extend edit

theorem extendAll?_cons (range : Option ChangedRange) {edits : List Edit}
    (hwithin : edit.start + edit.removed ≤ length) :
    extendAll? range length (edit :: edits) =
      extendAll? (some (next range edit)) (length - edit.removed + edit.inserted) edits := by
  cases range <;> simp only [extendAll?, if_neg (Nat.not_lt.mpr hwithin), next]

theorem extendAll?_eq_none_iff (range : Option ChangedRange) (length : Nat) (edits : List Edit) :
    extendAll? range length edits = none ↔ Edit.Overreach length edits := by
  induction edits generalizing range length with
  | nil => simp [extendAll?, Edit.not_overreach_nil]
  | cons edit edits ih =>
    rw [Edit.overreach_cons]
    by_cases hwithin : edit.start + edit.removed ≤ length
    · rw [extendAll?_cons range hwithin, ih, or_iff_right (Nat.not_lt.mpr hwithin)]
    · simp [extendAll?, Nat.lt_of_not_le hwithin]

def SpansSoFar (range : Option ChangedRange) (old length : Nat) : Prop :=
  match range with
  | none => old = length
  | some range => range.Spans old length

theorem SpansSoFar.next {range : Option ChangedRange} (h : SpansSoFar range old length)
    (hwithin : edit.start + edit.removed ≤ length) :
    (next range edit).Spans old (length - edit.removed + edit.inserted) := by
  cases range with
  | none =>
    obtain rfl : old = length := h
    exact spans_ofEdit hwithin
  | some range => exact Spans.extend h hwithin

def SameSoFar (range : Option ChangedRange) (before text : List UInt8) : Prop :=
  match range with
  | none => before = text
  | some range => range.SameAround before text

theorem SameSoFar.next {range : Option ChangedRange} {before text inserted : List UInt8}
    (h : SameSoFar range before text) (hwithin : edit.start + edit.removed ≤ text.length)
    (hlength : inserted.length = edit.inserted) :
    (next range edit).SameAround before (edit.replace inserted text) := by
  cases range with
  | none =>
    obtain rfl : before = text := h
    exact sameAround_ofEdit hwithin hlength
  | some range => exact SameAround.extend h hwithin hlength

theorem exists_of_leads (range : Option ChangedRange) {before text new : List UInt8}
    {edits : List Edit} (h : Edit.Leads text edits new)
    (hspans : SpansSoFar range before.length text.length) (hsame : SameSoFar range before text) :
    ∃ last, extendAll? range text.length edits = some last ∧
      SpansSoFar last before.length new.length ∧ SameSoFar last before new := by
  induction h generalizing range with
  | done text => exact ⟨range, rfl, hspans, hsame⟩
  | step within length tail ih =>
    have hspans' := hspans.next within
    rw [extendAll?_cons range within]
    rw [← Edit.length_replace within length] at hspans' ⊢
    exact ih _ hspans' (hsame.next within length)

def extendSized (range : ChangedRange) (edit : Edit) (editEnd : Nat) :
    Except SizeFault ChangedRange := do
  let oldEnd ← SizeFault.add range.oldEnd (editEnd - range.newEnd)
  let kept ← SizeFault.sub (max range.newEnd editEnd) edit.removed
  let newEnd ← SizeFault.add kept edit.inserted
  return ⟨min range.start edit.start, oldEnd, newEnd⟩

def ofEditSized (edit : Edit) (editEnd : Nat) : Except SizeFault ChangedRange := do
  let newEnd ← SizeFault.add edit.start edit.inserted
  return ⟨edit.start, editEnd, newEnd⟩

def nextSized (range : Option ChangedRange) (edit : Edit) (editEnd : Nat) :
    Except SizeFault ChangedRange :=
  match range with
  | none => ofEditSized edit editEnd
  | some range => range.extendSized edit editEnd

/-- The range of further edits in sizes of 64 bits. An edit whose end is no size reaches too far. -/
def extendAllSized : Option ChangedRange → Nat → List Edit →
    Except SizeFault (Option (Option ChangedRange))
  | range, _, [] => .ok (some range)
  | range, length, edit :: edits =>
    match SizeFault.add edit.start edit.removed with
    | .error _ => .ok none
    | .ok editEnd =>
      if length < editEnd then .ok none
      else do
        let kept ← SizeFault.sub length edit.removed
        let after ← SizeFault.add kept edit.inserted
        let next ← nextSized range edit editEnd
        extendAllSized (some next) after edits

def ofEditsSized (length : Nat) (edits : List Edit) : Except SizeFault (Option ChangedRange) := do
  let range ← extendAllSized none length edits
  return range.map (·.getD (unchanged length))

theorem ofEditSized_eq_ok (hwithin : edit.start + edit.removed ≤ length)
    (hafter : length - edit.removed + edit.inserted ≤ maxSize) :
    ofEditSized edit (edit.start + edit.removed) = .ok (ofEdit edit) := by
  rw [ofEditSized, SizeFault.add_eq_ok (by omega)]
  rfl

theorem extendSized_eq_ok (h : range.Spans old length) (hold : old ≤ maxSize)
    (hwithin : edit.start + edit.removed ≤ length)
    (hafter : length - edit.removed + edit.inserted ≤ maxSize) :
    range.extendSized edit (edit.start + edit.removed) = .ok (range.extend edit) := by
  obtain ⟨-, -, holdEnd, hnewEnd, hbehind⟩ := h
  rw [extendSized, SizeFault.add_eq_ok (by omega), SizeFault.sub_eq_ok (by omega)]
  simp only [bind, Except.bind]
  rw [SizeFault.add_eq_ok (by omega)]
  rfl

theorem nextSized_eq_ok {range : Option ChangedRange} (h : SpansSoFar range old length)
    (hold : old ≤ maxSize) (hwithin : edit.start + edit.removed ≤ length)
    (hafter : length - edit.removed + edit.inserted ≤ maxSize) :
    nextSized range edit (edit.start + edit.removed) = .ok (next range edit) := by
  cases range with
  | none => exact ofEditSized_eq_ok hwithin hafter
  | some range => exact extendSized_eq_ok h hold hwithin hafter

theorem extendAllSized_eq_ok (range : Option ChangedRange) {edits : List Edit}
    (h : SpansSoFar range old length) (hold : old ≤ maxSize)
    (hsizes : Edit.SizesFit length edits) :
    extendAllSized range length edits = .ok (extendAll? range length edits) := by
  induction edits generalizing range length with
  | nil => rfl
  | cons edit edits ih =>
    by_cases hwithin : edit.start + edit.removed ≤ length
    · have htail := hsizes.tail hwithin
      have hend := SizeFault.add_eq_ok (Nat.le_trans hwithin hsizes.head)
      have hkept := SizeFault.sub_eq_ok (Nat.le_of_add_left_le hwithin)
      have hafter := SizeFault.add_eq_ok htail.head
      have hnext := nextSized_eq_ok h hold hwithin htail.head
      simp only [extendAllSized, hend, hkept, hafter, hnext, if_neg (Nat.not_lt.mpr hwithin),
        bind, Except.bind]
      rw [extendAll?_cons range hwithin]
      exact ih _ (h.next hwithin) htail
    · have hreach : length < edit.start + edit.removed := Nat.lt_of_not_le hwithin
      simp only [extendAll?, if_pos hreach, extendAllSized, SizeFault.add]
      by_cases hsize : edit.start + edit.removed ≤ maxSize <;> simp [hsize, hreach]

theorem ofEditsSized_eq_ok {edits : List Edit} (h : Edit.SizesFit length edits) :
    ofEditsSized length edits = .ok (ofEdits? length edits) := by
  have hmerged := extendAllSized_eq_ok none rfl h.head h
  rw [ofEditsSized, hmerged]
  rfl

/-- The range is a true account of how one text became another. -/
structure Describes (range : ChangedRange) (old new : String) : Prop where
  spans : range.Spans (byteLength old.toList) (byteLength new.toList)
  agrees : range.agrees old new
  delta : byteLength old.toList ≤ maxTextLength → byteLength new.toList ≤ maxTextLength →
    (byteLength new.toList : Int) = byteLength old.toList + range.delta

theorem Spans.delta_eq {new : Nat} (h : range.Spans old new) (hold : old ≤ maxTextLength)
    (hnew : new ≤ maxTextLength) : (new : Int) = old + range.delta := by
  obtain ⟨-, -, holdEnd, hnewEnd, hbehind⟩ := h
  unfold maxTextLength at hold hnew
  rw [ChangedRange.delta, Int.bmod_eq_of_le] <;> omega

theorem describes_of_leads {old new : String} {edits : List Edit}
    (h : Edit.Leads (bytes old.toList) edits (bytes new.toList)) :
    ∃ range, ofEdits? (byteLength old.toList) edits = some range ∧ range.Describes old new := by
  obtain ⟨last, hlast, hspans, hsame⟩ := exists_of_leads none h rfl rfl
  rw [Text.length_bytes] at hlast
  rw [Text.length_bytes, Text.length_bytes] at hspans
  have hrange : ∀ range, range = last.getD (unchanged (byteLength old.toList)) →
      range.Spans (byteLength old.toList) (byteLength new.toList) ∧
        range.SameAround (bytes old.toList) (bytes new.toList) := by
    rintro _ rfl
    cases last with
    | none =>
      rw [← Text.bytes_injective (hsame : bytes old.toList = bytes new.toList)]
      exact ⟨spans_unchanged _, rfl, rfl⟩
    | some range => exact ⟨hspans, hsame⟩
  obtain ⟨hspans, hsame⟩ := hrange _ rfl
  refine ⟨_, by rw [ofEdits?, hlast, Option.map_some], hspans, ?_, hspans.delta_eq⟩
  exact decide_eq_true (agrees_of_sameAround hspans hsame)

/-- Merging edits gives no range exactly if one of them reaches past the end of the text that it
applies to. It stops at no overflow and takes nothing away from less. Whatever text the edits lead
to, the range is a true account of the change, and so a tree is not read anew because of it. -/
theorem ofEdits?_describes (old : String) (edits : List Edit)
    (h : Edit.SizesFit (byteLength old.toList) edits) :
    (ofEdits? (byteLength old.toList) edits = none ↔
      Edit.Overreach (byteLength old.toList) edits) ∧
    ofEditsSized (byteLength old.toList) edits = .ok (ofEdits? (byteLength old.toList) edits) ∧
    ∀ new : String, Edit.Leads (bytes old.toList) edits (bytes new.toList) →
      ∃ range, ofEdits? (byteLength old.toList) edits = some range ∧ range.Describes old new ∧
        ∀ previous : SyntaxTree, previous.source = old →
          previous.changeBy? new edits = some range := by
  refine ⟨?_, ofEditsSized_eq_ok h, fun new hleads => ?_⟩
  · rw [ofEdits?, Option.map_eq_none_iff, extendAll?_eq_none_iff]
  · obtain ⟨range, hrange, hdescribes⟩ := describes_of_leads hleads
    refine ⟨range, hrange, hdescribes, fun previous hprevious => ?_⟩
    rw [SyntaxTree.changeBy?, hprevious, hrange]
    exact Option.filter_eq_some_iff.mpr ⟨rfl, hdescribes.agrees⟩

/-- A character of two bytes is taken out byte by byte, and the text gets a new end. -/
theorem ofEdits?_describes_cut :
    Edit.SizesFit (byteLength "añb".toList) [⟨2, 1, 0⟩, ⟨1, 1, 2⟩, ⟨4, 0, 1⟩] ∧
    Edit.Leads (bytes "añb".toList) [⟨2, 1, 0⟩, ⟨1, 1, 2⟩, ⟨4, 0, 1⟩] (bytes "axyb!".toList) ∧
    ∃ range, ofEdits? (byteLength "añb".toList) [⟨2, 1, 0⟩, ⟨1, 1, 2⟩, ⟨4, 0, 1⟩] = some range ∧
      range.Describes "añb" "axyb!" ∧
      ∀ previous : SyntaxTree, previous.source = "añb" →
        previous.changeBy? "axyb!" [⟨2, 1, 0⟩, ⟨1, 1, 2⟩, ⟨4, 0, 1⟩] = some range := by
  have hsizes : Edit.SizesFit (byteLength "añb".toList) [⟨2, 1, 0⟩, ⟨1, 1, 2⟩, ⟨4, 0, 1⟩] := by
    intro earlier hprefix _
    have hall : ∀ earlier ∈ List.inits [(⟨2, 1, 0⟩ : Edit), ⟨1, 1, 2⟩, ⟨4, 0, 1⟩],
        Edit.lengthAfter (byteLength "añb".toList) earlier ≤ maxSize := by decide
    exact hall earlier ((List.mem_inits _ _).mpr hprefix)
  have hleads : Edit.Leads (bytes "añb".toList) [⟨2, 1, 0⟩, ⟨1, 1, 2⟩, ⟨4, 0, 1⟩]
      (bytes "axyb!".toList) := by
    refine .step (by decide) (rfl : [].length = 0) (.step (by decide)
      (rfl : (bytes ['x', 'y']).length = 2) (.step (by decide) (rfl : (bytes ['!']).length = 1) ?_))
    exact .done (bytes "axyb!".toList)
  exact ⟨hsizes, hleads, (ofEdits?_describes _ _ hsizes).2.2 _ hleads⟩

end ChangedRange

end LosslessSyntax
