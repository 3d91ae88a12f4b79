import LosslessSyntax.Proofs.Extents
/-!
Where recovery lets reading go on. The place can be told from the kinds of the tokens alone, without
a word on how they are skipped, and there is only one such place. The error node that is left behind
stands for every token in front of it.
-/
namespace LosslessSyntax

namespace Recovery

/-- Reading can go on at `stop` after a part that began at `start` has failed at `position`. -/
structure EndsAt (recovery : Recovery) (stream : TokenStream) (start position stop : Nat) :
    Prop where
  position_le : position ≤ stop
  bound : stop ≤ stream.body.size
  progress : recovery.forceProgress → stream.kind position ≠ .eof → start < stop
  /-- What ends the skipping is the next token, or the last one that was skipped. -/
  halts : stream.kind stop = .eof ∨ stream.kind stop ∈ recovery.stop ∨
    position < stop ∧ stream.kind (stop - 1) ∈ recovery.inclusive
  skipped : ∀ index, position ≤ index → index < stop → stream.kind index ≠ .eof
  /-- A token that should end the skipping is skipped only if the failed part has taken none. -/
  stops : ∀ index, position ≤ index → index < stop → stream.kind index ∈ recovery.stop →
    recovery.forceProgress ∧ position = start ∧ index = start
  inclusive : ∀ index, position ≤ index → index + 1 < stop →
    stream.kind index ∉ recovery.inclusive

namespace EndsAt

variable {recovery : Recovery} {stream : TokenStream} {start position stop other : Nat}

theorem here (hstart : start ≤ position) (hbound : position ≤ stream.body.size)
    (hhalts : stream.kind position = .eof ∨ stream.kind position ∈ recovery.stop)
    (hfree : recovery.forceProgress → position = start → stream.kind position = .eof) :
    recovery.EndsAt stream start position position where
  position_le := le_rfl
  bound := hbound
  progress hforce hkind := hstart.lt_of_ne fun hsame => hkind (hfree hforce hsame.symm)
  halts := hhalts.imp_right .inl
  skipped _ hle hlt := absurd hlt hle.not_gt
  stops _ hle hlt := absurd hlt hle.not_gt
  inclusive _ hle hlt := absurd (Nat.lt_of_succ_lt hlt) hle.not_gt

theorem last (hstart : start ≤ position) (hkind : stream.kind position ≠ .eof)
    (hinclusive : stream.kind position ∈ recovery.inclusive)
    (hstops : stream.kind position ∈ recovery.stop → recovery.forceProgress ∧ position = start) :
    recovery.EndsAt stream start position (position + 1) where
  position_le := Nat.le_succ _
  bound := TokenStream.lt_of_kind_ne_eof hkind
  progress _ _ := Nat.lt_succ_of_le hstart
  halts := .inr (.inr ⟨Nat.lt_succ_self _, hinclusive⟩)
  skipped index hle hlt := by
    obtain rfl : index = position := by omega
    exact hkind
  stops index hle hlt hstop := by
    obtain rfl : index = position := by omega
    exact ⟨(hstops hstop).1, (hstops hstop).2, (hstops hstop).2⟩
  inclusive index hle hlt := by omega

theorem cons (hstart : start ≤ position) (hkind : stream.kind position ≠ .eof)
    (hinclusive : stream.kind position ∉ recovery.inclusive)
    (hstops : stream.kind position ∈ recovery.stop → recovery.forceProgress ∧ position = start)
    (h : recovery.EndsAt stream start (position + 1) stop) :
    recovery.EndsAt stream start position stop where
  position_le := Nat.le_of_succ_le h.position_le
  bound := h.bound
  progress _ _ := Nat.lt_of_le_of_lt hstart h.position_le
  halts := h.halts.imp_right (Or.imp_right fun hlast => ⟨Nat.lt_of_succ_lt hlast.1, hlast.2⟩)
  skipped index hle hlt := by
    rcases hle.eq_or_lt with rfl | hbehind
    · exact hkind
    · exact h.skipped index hbehind hlt
  stops index hle hlt hstop := by
    rcases hle.eq_or_lt with rfl | hbehind
    · exact ⟨(hstops hstop).1, (hstops hstop).2, (hstops hstop).2⟩
    · have := (h.stops index hbehind hlt hstop).2.1
      omega
  inclusive index hle hlt := by
    rcases hle.eq_or_lt with rfl | hbehind
    · exact hinclusive
    · exact h.inclusive index hbehind hlt

theorem le (h : recovery.EndsAt stream start position stop)
    (h' : recovery.EndsAt stream start position other) : other ≤ stop := by
  by_contra hlt
  have hlt : stop < other := Nat.not_le.mp hlt
  have hkind := h'.skipped stop h.position_le hlt
  rcases h.halts with heof | hstop | ⟨hmoved, hinclusive⟩
  · exact hkind heof
  · obtain ⟨hforce, hposition, hsame⟩ := h'.stops stop h.position_le hlt hstop
    have hprogress := h.progress hforce (by rwa [hposition, ← hsame])
    omega
  · exact h'.inclusive (stop - 1) (by omega) (by omega) hinclusive

theorem eq (h : recovery.EndsAt stream start position stop)
    (h' : recovery.EndsAt stream start position other) : other = stop :=
  Nat.le_antisymm (h.le h') (h'.le h)

end EndsAt

end Recovery

namespace Cursor

variable {recovery : Recovery} {stream : TokenStream} {start : Nat} {cursor : Cursor}

theorem endsAt_skipUntil {fuel : Nat} (hstart : start ≤ cursor.position)
    (hbound : cursor.position ≤ stream.body.size)
    (hfuel : stream.body.size < cursor.position + fuel)
    (hfree : recovery.forceProgress → cursor.position = start →
      stream.kind cursor.position = .eof) :
    recovery.EndsAt stream start cursor.position
      (cursor.skipUntil recovery stream fuel).position := by
  induction fuel generalizing cursor with
  | zero => omega
  | succ fuel ih =>
    simp only [skipUntil]
    split
    case isTrue hhalts => exact .here hstart hbound hhalts hfree
    rename_i hgoes
    obtain ⟨hkind, hstop⟩ := not_or.mp hgoes
    have hmoved := advance_position_of_ne_eof hkind
    split
    case isTrue hinclusive =>
      rw [hmoved]
      exact .last hstart hkind hinclusive fun h => absurd h hstop
    case isFalse hinclusive =>
      refine .cons hstart hkind hinclusive (fun h => absurd h hstop) ?_
      have hlt := TokenStream.lt_of_kind_ne_eof hkind
      rw [← hmoved]
      exact ih (by omega) (by omega) (by omega) fun _ hsame => absurd hsame (by omega)

theorem endsAt_skip (hstart : start ≤ cursor.position)
    (hbound : cursor.position ≤ stream.body.size) :
    recovery.EndsAt stream start cursor.position
      (cursor.skip recovery stream start).position := by
  simp only [skip]
  split
  case isTrue hforced =>
    obtain ⟨hsame, hforce, hkind⟩ := hforced
    have hmoved := advance_position_of_ne_eof hkind
    split
    case isTrue hinclusive =>
      rw [hmoved]
      exact .last hstart hkind hinclusive fun _ => ⟨hforce, hsame⟩
    case isFalse hinclusive =>
      refine .cons hstart hkind hinclusive (fun _ => ⟨hforce, hsame⟩) ?_
      have hlt := TokenStream.lt_of_kind_ne_eof hkind
      rw [← hmoved]
      refine endsAt_skipUntil (by omega) (by omega) ?_ fun _ hagain => absurd hagain (by omega)
      rw [TokenStream.size]
      omega
  case isFalse hfree =>
    refine endsAt_skipUntil hstart hbound ?_ fun hforce hsame => ?_
    · rw [TokenStream.size]
      omega
    · by_contra hkind
      exact hfree ⟨hsame, hforce, hkind⟩

end Cursor

namespace TokenStream

/-- A broken invariant stays a failure, and the cursor stays where it is. From any other failure on
reading goes on at the one place where it can, and an error node that carries the diagnostic has for
its children the leaves of all tokens in front of that place, from the first one of the part that
failed. -/
theorem recover_resynchronises (stream : TokenStream) (recovery : Recovery) {start : Nat}
    (diagnostic : Diagnostic) {cursor : Cursor} (hstart : start ≤ cursor.position)
    (hbound : cursor.position ≤ stream.body.size) :
    if diagnostic.isInternal then
      stream.recover recovery start diagnostic cursor = .failed diagnostic cursor
    else
      ∃ node after, stream.recover recovery start diagnostic cursor = .done node after ∧
        node.kind = .error ∧ node.diagnostic = some diagnostic ∧
        node.children =
          ((stream.toList.drop start).take (after.position - start)).map Node.ofToken ∧
        ∀ stop, recovery.EndsAt stream start cursor.position stop ↔ stop = after.position := by
  have hends : recovery.EndsAt stream start cursor.position
      (cursor.skip recovery stream start).position := Cursor.endsAt_skip hstart hbound
  unfold recover
  split
  · rfl
  · refine ⟨_, _, rfl, rfl, rfl, ?_, fun stop => ⟨hends.eq, ?_⟩⟩
    · exact congrArg (List.map Node.ofToken) (slice_eq_take_drop hends.bound)
    · rintro rfl
      exact hends

/-- A member that cannot begin with `fn`. The keyword should end the skipping, but it is skipped
with all that is behind it up to the comma. -/
theorem recover_resynchronises_forced :
    ∃ stream : TokenStream, stream.toList = tokenizeSignificant "fn a, b" ∧
      0 ≤ Cursor.start.position ∧ Cursor.start.position ≤ stream.body.size ∧
      Recovery.member.EndsAt stream 0 0 3 ∧
      ∃ node after,
        stream.recover .member 0 ⟨.expectedToken "field name" "fn", ⟨0, 2⟩⟩ .start =
          .done node after ∧
        node.kind = .error ∧
        node.diagnostic = some ⟨.expectedToken "field name" "fn", ⟨0, 2⟩⟩ ∧
        node.children = ((stream.toList.drop 0).take (after.position - 0)).map Node.ofToken ∧
        ∀ stop, Recovery.member.EndsAt stream 0 0 stop ↔ stop = after.position := by
  let stream : TokenStream :=
    ⟨#[⟨.fnKeyword, "fn", ⟨0, 2⟩⟩, ⟨.identifier, "a", ⟨3, 4⟩⟩, ⟨.comma, ",", ⟨4, 5⟩⟩,
      ⟨.identifier, "b", ⟨6, 7⟩⟩], .endOfFile 7, rfl⟩
  have hbound : Cursor.start.position ≤ stream.body.size := Nat.zero_le _
  have hends : Recovery.member.EndsAt stream 0 0 (Cursor.start.skip .member stream 0).position :=
    Cursor.endsAt_skip le_rfl hbound
  refine ⟨stream, by decide +kernel, le_rfl, hbound, hends, ?_⟩
  exact recover_resynchronises stream .member ⟨.expectedToken "field name" "fn", ⟨0, 2⟩⟩ le_rfl
    hbound

end TokenStream

end LosslessSyntax
