import LosslessSyntax.Proofs.Bounds
import LosslessSyntax.Proofs.Shifted
/-!
Windows: a run of tokens that stands in two streams, at different places and moved. A cursor that
looks at no token outside the window does the same in both streams.
-/
namespace LosslessSyntax

theorem TokenStream.get_clamp (stream : TokenStream) (index : Nat) :
    stream.get (stream.clamp index) = stream.get index := by
  by_cases h : index ≤ stream.body.size
  · rw [clamp_eq_self h]
  · have hsize : stream.clamp index = stream.body.size := Nat.min_eq_right (by omega)
    rw [hsize, get, get, Array.getElem?_eq_none le_rfl, Array.getElem?_eq_none (by omega)]

/-- A run of tokens of an old stream that stands, moved, in a new one. What can be seen from the
old stream without a look outside the run can be seen from the new one. -/
structure Window (old new : TokenStream) where
  /-- By how much the spans have moved. -/
  distance : Int
  /-- The first token of the run in the old stream and in the new one. -/
  first : Nat
  first' : Nat
  /-- The last token of the run in the old stream. -/
  last : Nat
  clamp : ∀ index, first ≤ index → old.clamp index ≤ last →
    new.clamp (index - first + first') = old.clamp index - first + first'
  get : ∀ index, first ≤ index → old.clamp index ≤ last →
    new.get (index - first + first') = (old.get index).shifted distance

namespace Window

variable {old new : TokenStream}

theorem clamp_of_tokens {distance : Int} {first first' last index : Nat}
    (hfirst : first ≤ old.body.size) (hlast : last - first + first' ≤ new.body.size)
    (hend : ∀ index, new.kind index = .eof → new.body.size ≤ index)
    (hget : ∀ index, first ≤ index → index ≤ last →
      new.get (index - first + first') = (old.get index).shifted distance)
    (hindex : first ≤ index) (h : old.clamp index ≤ last) :
    first ≤ old.clamp index ∧
      new.clamp (index - first + first') = old.clamp index - first + first' := by
  by_cases hin : index ≤ old.body.size
  · rw [TokenStream.clamp_eq_self hin] at h ⊢
    exact ⟨hindex, TokenStream.clamp_eq_self (by omega)⟩
  · have hsize : old.clamp index = old.body.size := Nat.min_eq_right (by omega)
    rw [hsize] at h ⊢
    have hkind : new.kind (old.body.size - first + first') = .eof := by
      rw [TokenStream.kind, hget _ hfirst h]
      exact TokenStream.kind_eq_eof_of_le le_rfl
    have hbehind := hend _ hkind
    refine ⟨hfirst, ?_⟩
    unfold TokenStream.clamp
    omega

def ofTokens (distance : Int) (first first' last : Nat) (hfirst : first ≤ old.body.size)
    (hlast : last - first + first' ≤ new.body.size)
    (hend : ∀ index, new.kind index = .eof → new.body.size ≤ index)
    (hget : ∀ index, first ≤ index → index ≤ last →
      new.get (index - first + first') = (old.get index).shifted distance) : Window old new where
  distance := distance
  first := first
  first' := first'
  last := last
  clamp _ hindex h := (clamp_of_tokens hfirst hlast hend hget hindex h).2
  get index hindex h := by
    obtain ⟨hle, hclamp⟩ := clamp_of_tokens hfirst hlast hend hget hindex h
    rw [← new.get_clamp, hclamp, hget _ hle (by omega), old.get_clamp]

def index (window : Window old new) (index : Nat) : Nat :=
  index - window.first + window.first'

def cursor (window : Window old new) (cursor : Cursor) : Cursor :=
  ⟨window.index cursor.position, window.index cursor.furthest⟩

@[simp] theorem cursor_position (window : Window old new) (cursor : Cursor) :
    (window.cursor cursor).position = window.index cursor.position := rfl

variable {window : Window old new} {cursor : Cursor} {index : Nat}

theorem index_add (hindex : window.first ≤ index) (distance : Nat) :
    window.index index + distance = window.index (index + distance) := by
  unfold Window.index
  omega

theorem index_inj {index' : Nat} (hindex : window.first ≤ index) (hindex' : window.first ≤ index') :
    window.index index = window.index index' ↔ index = index' := by
  unfold Window.index
  omega

theorem get_index (hindex : window.first ≤ index) (hlast : old.clamp index ≤ window.last) :
    new.get (window.index index) = (old.get index).shifted window.distance :=
  window.get index hindex hlast

theorem kind_index (hindex : window.first ≤ index) (hlast : old.clamp index ≤ window.last) :
    new.kind (window.index index) = old.kind index := by
  unfold TokenStream.kind
  rw [get_index hindex hlast, Token.shifted_kind]

theorem slice_index {start stop : Nat} (hstart : window.first ≤ start)
    (hstop : stop ≤ start ∨ stop ≤ window.last + 1) :
    new.slice (window.index start) (window.index stop) =
      (old.slice start stop).map (·.shifted window.distance) := by
  have hlength : window.index stop - window.index start = stop - start := by
    unfold Window.index
    omega
  unfold TokenStream.slice
  rw [hlength]
  apply List.ext_getElem
  · simp
  · intro offset hoffset _
    simp only [List.length_map, List.length_range'] at hoffset
    simp only [List.getElem_map, List.getElem_range', Nat.one_mul]
    rw [index_add hstart]
    have hclamp : old.clamp (start + offset) ≤ start + offset := Nat.min_le_left _ _
    exact get_index (by omega) (by omega)

theorem cursor_examine (hindex : window.first ≤ index)
    (hlast : (cursor.examine old index).furthest ≤ window.last) :
    (window.cursor cursor).examine new (window.index index) =
      window.cursor (cursor.examine old index) := by
  have hclamp : new.clamp (window.index index) = window.index (old.clamp index) :=
    window.clamp index hindex ((Nat.le_max_right _ _).trans hlast)
  unfold Cursor.examine
  rw [hclamp]
  simp only [Window.cursor, Window.index, Cursor.mk.injEq, true_and]
  omega

theorem cursor_examineHere (hfirst : window.first ≤ cursor.position)
    (hlast : (cursor.examineHere old).furthest ≤ window.last) :
    (window.cursor cursor).examineHere new = window.cursor (cursor.examineHere old) :=
  cursor_examine hfirst hlast

theorem cursor_advance (hfirst : window.first ≤ cursor.position)
    (hlast : (cursor.advance old).furthest ≤ window.last) :
    (window.cursor cursor).advance new = window.cursor (cursor.advance old) := by
  have hhere : (cursor.examineHere old).furthest = (cursor.advance old).furthest := by
    unfold Cursor.advance
    split <;> rfl
  have hkind := window.kind_index hfirst (hhere ▸ hlast |>.trans' (Nat.le_max_right _ _))
  unfold Cursor.advance
  rw [cursor_examineHere hfirst (hhere ▸ hlast), cursor_position, hkind]
  split
  · rfl
  · simp only [Window.cursor, index_add hfirst]

theorem cursor_skipUntil (recovery : Recovery) (fuel fuel' : Nat)
    (hfuel : old.body.size - cursor.position < fuel)
    (hfuel' : new.body.size - window.index cursor.position < fuel')
    (hfirst : window.first ≤ cursor.position)
    (hlast : (cursor.skipUntil recovery old fuel).furthest ≤ window.last) :
    (window.cursor cursor).skipUntil recovery new fuel' =
      window.cursor (cursor.skipUntil recovery old fuel) := by
  induction fuel generalizing cursor fuel' with
  | zero => omega
  | succ fuel ih =>
    obtain ⟨fuel', rfl⟩ : ∃ n, fuel' = n + 1 := ⟨fuel' - 1, by omega⟩
    -- the token under the cursor is looked at in every case
    have hkind : new.kind (window.index cursor.position) = old.kind cursor.position := by
      apply window.kind_index hfirst
      have hlooked := Cursor.Reaches.clamp_le_skipUntil recovery fuel cursor old
      omega
    simp only [Cursor.skipUntil, cursor_position, hkind] at hlast ⊢
    by_cases hstop : old.kind cursor.position = .eof ∨ old.kind cursor.position ∈ recovery.stop
    · simp only [if_pos hstop] at hlast ⊢
      exact cursor_examineHere hfirst hlast
    by_cases hinclusive : old.kind cursor.position ∈ recovery.inclusive
    · simp only [if_neg hstop, if_pos hinclusive] at hlast ⊢
      exact cursor_advance hfirst hlast
    · simp only [if_neg hstop, if_neg hinclusive] at hlast ⊢
      have hkindOld := (not_or.mp hstop).1
      have hmoved := Cursor.advance_position_of_ne_eof hkindOld
      have hltOld := TokenStream.lt_of_kind_ne_eof hkindOld
      have hltNew := TokenStream.lt_of_kind_ne_eof (hkind ▸ hkindOld)
      rw [cursor_advance hfirst
        ((Cursor.Reaches.skipUntil recovery fuel _ old).furthest_le.trans hlast)]
      apply ih
      · omega
      · rw [hmoved, ← index_add hfirst]
        omega
      · omega
      · exact hlast

theorem cursor_skip (recovery : Recovery) {start : Nat} (hstart : window.first ≤ start)
    (hfirst : window.first ≤ cursor.position)
    (hlast : (cursor.skip recovery old start).furthest ≤ window.last) :
    (window.cursor cursor).skip recovery new (window.index start) =
      window.cursor (cursor.skip recovery old start) := by
  have hkind : new.kind (window.index cursor.position) = old.kind cursor.position := by
    apply window.kind_index hfirst
    exact (Cursor.Reaches.clamp_le_skip recovery start cursor old).trans hlast
  have hsize {stream : TokenStream} {position : Nat} :
      stream.body.size - position < stream.size := by
    unfold TokenStream.size
    omega
  simp only [Cursor.skip, cursor_position, hkind, index_inj hfirst hstart] at hlast ⊢
  by_cases hforced : cursor.position = start ∧ recovery.forceProgress ∧
      old.kind cursor.position ≠ .eof
  · simp only [if_pos hforced] at hlast ⊢
    by_cases hinclusive : old.kind cursor.position ∈ recovery.inclusive
    · simp only [if_pos hinclusive] at hlast ⊢
      exact cursor_advance hfirst hlast
    · simp only [if_neg hinclusive] at hlast ⊢
      rw [cursor_advance hfirst
        ((Cursor.Reaches.skipUntil recovery old.size _ old).furthest_le.trans hlast)]
      exact cursor_skipUntil recovery _ _ hsize hsize
        (hfirst.trans (cursor.position_le_advance old)) hlast
  · simp only [if_neg hforced] at hlast ⊢
    exact cursor_skipUntil recovery _ _ hsize hsize hfirst hlast

theorem shifted_errorNode {start stop : Nat} {diagnostic : Diagnostic}
    (hstart : window.first ≤ start) (hclamp : old.clamp start ≤ window.last)
    (hstop : stop ≤ start ∨ stop ≤ window.last + 1) (h : diagnostic.isInternal = false) :
    new.errorNode (window.index start) (window.index stop) (diagnostic.carried window.distance) =
      (old.errorNode start stop diagnostic).shifted window.distance := by
  unfold TokenStream.errorNode
  rw [Node.shifted_withDiagnostic, Diagnostic.carried_eq_shifted _ h, get_index hstart hclamp,
    slice_index hstart hstop, ← Node.shiftedAll_map_ofToken]
  have hmoved : ((old.get start).shifted window.distance).span.start =
      Span.moveOffset (old.get start).span.start window.distance := rfl
  rw [Node.shifted_ofChildren fun _ => hmoved]

def outcome (window : Window old new) : Outcome (List Node) → Outcome (List Node)
  | .done nodes cursor => .done (Node.shiftedAll window.distance nodes) (window.cursor cursor)
  | .failed diagnostic cursor =>
    .failed (diagnostic.carried window.distance) (window.cursor cursor)

/-- Whether an action, where it does not look outside the window, has the same outcome as another
one has in the new stream. -/
def Carries (window : Window old new) (action action' : Action) : Prop :=
  ∀ (dialect : Dialect) (context : Context) (name : String) (nodes : List Node) (cursor : Cursor),
    window.first ≤ cursor.position →
    (action ⟨old, dialect, context, name⟩ nodes cursor).cursor.furthest ≤ window.last →
    action' ⟨new, dialect, context, name⟩ (Node.shiftedAll window.distance nodes)
        (window.cursor cursor) =
      window.outcome (action ⟨old, dialect, context, name⟩ nodes cursor)

end Window

end LosslessSyntax
