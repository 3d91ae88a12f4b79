import LosslessSyntax.Parse.Cursor
import Mathlib.Data.List.Basic
import Mathlib.Data.Nat.Basic
import Mathlib.Order.Basic
/-!
Cursors stay between the place they came from and the end of file, what was looked at is never
forgotten, and nothing is passed without a look at it.
-/
namespace LosslessSyntax

namespace TokenStream

theorem kind_eq_eof_of_le {stream : TokenStream} {index : Nat} (h : stream.body.size ≤ index) :
    stream.kind index = .eof := by
  simp [kind, get, Array.getElem?_eq_none h, stream.final_kind]

theorem lt_of_kind_ne_eof {stream : TokenStream} {index : Nat} (h : stream.kind index ≠ .eof) :
    index < stream.body.size := by
  by_contra hle
  exact h (kind_eq_eof_of_le (by omega))

theorem clamp_le (stream : TokenStream) (index : Nat) : stream.clamp index ≤ stream.body.size :=
  Nat.min_le_right _ _

theorem clamp_eq_self {stream : TokenStream} {index : Nat} (h : index ≤ stream.body.size) :
    stream.clamp index = index := Nat.min_eq_left h

theorem slice_self (stream : TokenStream) (index : Nat) : stream.slice index index = [] := by
  simp [slice]

theorem slice_succ (stream : TokenStream) {start stop : Nat} (h : start ≤ stop) :
    stream.slice start (stop + 1) = stream.slice start stop ++ [stream.get stop] := by
  have hlength : stop + 1 - start = (stop - start) + 1 := by omega
  simp only [slice, hlength, List.range'_concat, List.map_append, List.map_cons, List.map_nil]
  congr 3
  omega

theorem slice_append (stream : TokenStream) {start middle stop : Nat} (hfirst : start ≤ middle)
    (hlast : middle ≤ stop) :
    stream.slice start middle ++ stream.slice middle stop = stream.slice start stop := by
  have hlength : stop - start = (middle - start) + (stop - middle) := by omega
  have hmiddle : middle = start + 1 * (middle - start) := by omega
  simp only [slice, ← List.map_append, hlength]
  rw [← List.range'_append, ← hmiddle]

end TokenStream

namespace Cursor

variable (cursor : Cursor) (stream : TokenStream)

@[simp] theorem examine_position (index : Nat) :
    (cursor.examine stream index).position = cursor.position := rfl

@[simp] theorem examineHere_position :
    (cursor.examineHere stream).position = cursor.position := rfl

@[simp] theorem rewind_position (position : Nat) : (cursor.rewind position).position = position :=
  rfl

theorem advance_position_of_ne_eof {cursor : Cursor} {stream : TokenStream}
    (h : stream.kind cursor.position ≠ .eof) :
    (cursor.advance stream).position = cursor.position + 1 := by
  simp [advance, h]

theorem position_le_advance : cursor.position ≤ (cursor.advance stream).position := by
  unfold advance
  split
  · exact le_rfl
  · exact Nat.le_succ _

theorem advance_position_le {cursor : Cursor} {stream : TokenStream}
    (h : cursor.position ≤ stream.body.size) :
    (cursor.advance stream).position ≤ stream.body.size := by
  unfold advance
  split
  · exact h
  · rename_i hkind
    exact TokenStream.lt_of_kind_ne_eof hkind

variable (recovery : Recovery)

theorem position_le_skipUntil (fuel : Nat) :
    cursor.position ≤ (cursor.skipUntil recovery stream fuel).position := by
  induction fuel generalizing cursor with
  | zero => exact le_rfl
  | succ fuel ih =>
    simp only [skipUntil]
    split
    · exact le_rfl
    split
    · exact cursor.position_le_advance stream
    · exact (cursor.position_le_advance stream).trans (ih _)

theorem skipUntil_position_le {cursor : Cursor} {stream : TokenStream}
    (h : cursor.position ≤ stream.body.size) (fuel : Nat) :
    (cursor.skipUntil recovery stream fuel).position ≤ stream.body.size := by
  induction fuel generalizing cursor with
  | zero => exact h
  | succ fuel ih =>
    simp only [skipUntil]
    split
    · exact h
    split
    · exact advance_position_le h
    · exact ih (advance_position_le h)

theorem position_le_skip (start : Nat) :
    cursor.position ≤ (cursor.skip recovery stream start).position := by
  simp only [skip]
  split
  · split
    · exact cursor.position_le_advance stream
    · exact (cursor.position_le_advance stream).trans (position_le_skipUntil _ _ _ _)
  · exact position_le_skipUntil _ _ _ _

theorem skip_position_le {cursor : Cursor} {stream : TokenStream}
    (h : cursor.position ≤ stream.body.size) (start : Nat) :
    (cursor.skip recovery stream start).position ≤ stream.body.size := by
  simp only [skip]
  split
  · split
    · exact advance_position_le h
    · exact skipUntil_position_le recovery (advance_position_le h) _
  · exact skipUntil_position_le recovery h _

theorem lt_skip_position {cursor : Cursor} {stream : TokenStream} {recovery : Recovery}
    {start : Nat} (hle : start ≤ cursor.position) (hforce : recovery.forceProgress)
    (hkind : stream.kind start ≠ .eof) :
    start < (cursor.skip recovery stream start).position := by
  by_cases hstart : cursor.position = start
  · have hmoved : start < (cursor.advance stream).position := by
      rw [advance_position_of_ne_eof (hstart ▸ hkind)]
      omega
    simp only [skip, hstart, hforce, ne_eq, hkind, not_false_eq_true, and_self, if_true]
    split
    · exact hmoved
    · exact hmoved.trans_le (position_le_skipUntil _ _ _ _)
  · have := cursor.position_le_skip stream recovery start
    omega

/-- A cursor reaches another: that one is not behind it, nor past the end of file, and the tokens
between the two have been looked at. -/
structure Reaches (stream : TokenStream) (earlier cursor : Cursor) : Prop where
  position_le : earlier.position ≤ cursor.position
  furthest_le : earlier.furthest ≤ cursor.furthest
  position_bound : earlier.position ≤ stream.body.size → cursor.position ≤ stream.body.size
  furthest_bound : earlier.furthest ≤ stream.body.size → cursor.furthest ≤ stream.body.size
  looked : cursor.position ≤ earlier.position ∨ cursor.position ≤ cursor.furthest + 1

namespace Reaches

variable {stream : TokenStream} {cursor earlier later : Cursor}

@[refl] theorem refl (cursor : Cursor) : Reaches stream cursor cursor :=
  ⟨le_rfl, le_rfl, id, id, .inl le_rfl⟩

theorem trans (h : Reaches stream earlier cursor) (h' : Reaches stream cursor later) :
    Reaches stream earlier later := by
  refine ⟨h.position_le.trans h'.position_le, h.furthest_le.trans h'.furthest_le,
    h'.position_bound ∘ h.position_bound, h'.furthest_bound ∘ h.furthest_bound, ?_⟩
  have := h.looked
  have := h'.looked
  have := h'.furthest_le
  omega

theorem examine (cursor : Cursor) (stream : TokenStream) (index : Nat) :
    Reaches stream cursor (cursor.examine stream index) := by
  have := stream.clamp_le index
  refine ⟨le_rfl, Nat.le_max_left _ _, id, fun h => ?_, .inl le_rfl⟩
  simp only [Cursor.examine]
  omega

theorem examineHere (cursor : Cursor) (stream : TokenStream) :
    Reaches stream cursor (cursor.examineHere stream) := examine _ _ _

theorem clamp_le_advance (cursor : Cursor) (stream : TokenStream) :
    stream.clamp cursor.position ≤ (cursor.advance stream).furthest := by
  simp only [Cursor.advance]
  split <;> exact Nat.le_max_right _ _

theorem advance (cursor : Cursor) (stream : TokenStream) :
    Reaches stream cursor (cursor.advance stream) := by
  have hlook := examineHere cursor stream
  refine ⟨cursor.position_le_advance stream, ?_, advance_position_le, ?_, ?_⟩
  · simp only [Cursor.advance]
    split <;> exact hlook.furthest_le
  · simp only [Cursor.advance]
    split <;> exact hlook.furthest_bound
  · by_cases hkind : stream.kind cursor.position = .eof
    · left
      simp [Cursor.advance, hkind]
    · right
      have hlt := TokenStream.lt_of_kind_ne_eof hkind
      have hlooked := clamp_le_advance cursor stream
      rw [TokenStream.clamp_eq_self hlt.le] at hlooked
      rw [advance_position_of_ne_eof hkind]
      exact Nat.succ_le_succ hlooked

theorem skipUntil (recovery : Recovery) (fuel : Nat) (cursor : Cursor) (stream : TokenStream) :
    Reaches stream cursor (cursor.skipUntil recovery stream fuel) := by
  induction fuel generalizing cursor with
  | zero => exact .refl _
  | succ fuel ih =>
    simp only [Cursor.skipUntil]
    split
    · exact examineHere cursor stream
    split
    · exact advance cursor stream
    · exact (advance cursor stream).trans (ih _)

theorem skip (recovery : Recovery) (start : Nat) (cursor : Cursor) (stream : TokenStream) :
    Reaches stream cursor (cursor.skip recovery stream start) := by
  simp only [Cursor.skip]
  split
  · split
    · exact advance cursor stream
    · exact (advance cursor stream).trans (skipUntil _ _ _ _)
  · exact skipUntil _ _ _ _

theorem clamp_le_skipUntil (recovery : Recovery) (fuel : Nat) (cursor : Cursor)
    (stream : TokenStream) :
    stream.clamp cursor.position ≤ (cursor.skipUntil recovery stream (fuel + 1)).furthest := by
  simp only [Cursor.skipUntil]
  split
  · exact Nat.le_max_right _ _
  split
  · exact clamp_le_advance cursor stream
  · exact (clamp_le_advance cursor stream).trans (skipUntil _ _ _ _).furthest_le

theorem clamp_le_skip (recovery : Recovery) (start : Nat) (cursor : Cursor)
    (stream : TokenStream) :
    stream.clamp cursor.position ≤ (cursor.skip recovery stream start).furthest := by
  simp only [Cursor.skip]
  split
  · split
    · exact clamp_le_advance cursor stream
    · exact (clamp_le_advance cursor stream).trans (skipUntil _ _ _ _).furthest_le
  · exact clamp_le_skipUntil _ _ _ _

theorem rewind (h : Reaches stream earlier cursor) :
    Reaches stream earlier (cursor.rewind earlier.position) :=
  ⟨le_rfl, h.furthest_le, id, h.furthest_bound, .inl le_rfl⟩

end Reaches

end Cursor

end LosslessSyntax
