import LosslessSyntax.Proofs.Grammar.Sound
import LosslessSyntax.Proofs.Reach
/-!
Calls nest no deeper than the tokens that are left allow. So every nonterminal reads to its end, how
deep calls may nest makes no difference, and nothing goes wrong on the way.
-/
namespace LosslessSyntax

theorem Situation.Holds.of_refines {dialect : Dialect} {stream : TokenStream} {origin start : Nat}
    {situation wider : Situation} {nodes : List Node} {cursor : Cursor}
    (h : situation.Holds dialect stream origin start nodes cursor)
    (hrefines : situation.Refines wider) :
    wider.Holds dialect stream origin start nodes cursor := by
  obtain ⟨⟨front, here, there, hshape, hwider, hwithin⟩, hahead, hmoved⟩ := hrefines
  refine ⟨h.fragment, ?_, fun distance kind hkind => h.ahead distance kind ?_,
    fun hm => h.moved (hmoved hm), h.bound⟩
  · have hfits := h.fits
    rw [hshape, Shape.fits_append_iff] at hfits
    obtain ⟨first, last, hnodes, hfirst, hlast⟩ := hfits
    rw [hwider, hnodes]
    exact hfirst.append (hlast.of_within hwithin)
  · obtain ⟨rest, hrest⟩ := hahead
    rw [← hrest, List.getElem?_append_left (List.getElem?_eq_some_iff.mp hkind).1]
    exact hkind

theorem Situation.Holds.enter {dialect : Dialect} {stream : TokenStream} {origin start : Nat}
    {situation : Situation} {nodes : List Node} {cursor : Cursor}
    (h : situation.Holds dialect stream origin start nodes cursor) {name : Nonterminal}
    (hready : name.Ready situation) :
    (name.enter situation).Holds dialect stream origin cursor.position nodes cursor := by
  refine ⟨h.fragment, ?_, fun distance kind hkind => h.ahead distance kind ?_, by simp, h.bound⟩
  · rcases hbefore : name.before? with _ | shape
    · simp only [Nonterminal.enter, hbefore, Option.getD_none]
      exact h.fits
    · simp only [Nonterminal.enter, hbefore, Option.getD_some]
      exact h.fits.of_within (hready.1 shape hbefore)
  · simp only [Nonterminal.enter] at hkind
    split at hkind
    · rw [List.getElem?_take] at hkind
      split at hkind
      · exact hkind
      · contradiction
    · simp at hkind

/-- Whether callers can go on from an outcome: it neither goes back nor passes the end of file, and
does not come of a broken invariant. -/
def Outcome.isSound (stream : TokenStream) (start : Nat) : Outcome α → Bool
  | .done _ cursor => start ≤ cursor.position && cursor.position ≤ stream.body.size
  | .failed diagnostic cursor =>
    start ≤ cursor.position && cursor.position ≤ stream.body.size && !diagnostic.isInternal

theorem Outcome.Meets.isSound {stream : TokenStream} {start : Nat} {P : α → Cursor → Prop}
    {outcome : Outcome α} (h : outcome.Meets stream start P) : outcome.isSound stream start := by
  cases outcome with
  | done value cursor => simp [Outcome.isSound, h.1, h.2.1]
  | failed diagnostic cursor => simp [Outcome.isSound, h.1, h.2.1, h.2.2]

namespace Nonterminal

/-- What a nonterminal does when something else happens `instead` wherever reading goes wrong: where
calls nest too deep, where a nonterminal would call itself without a token having been read, and
where the outcome is not sound. -/
def guarded (instead : Nonterminal → Action) : Nat → Nonterminal → Action
  | 0, name, setting, nodes, cursor => instead name setting nodes cursor
  | depth + 1, name, setting, nodes, cursor =>
    let expand : Nonterminal → Action := fun callee setting nodes inner =>
      if callee = name ∧ inner.position ≤ cursor.position then instead callee setting nodes inner
      else guarded instead depth callee setting nodes inner
    let outcome := name.rule.run expand setting nodes cursor
    if outcome.isSound setting.stream cursor.position then outcome
    else instead name setting nodes cursor

theorem rank_lt (name : Nonterminal) : name.rank < 16 := by
  cases name <;> simp

/-- Calls that are further on, or lower in rank, have less weight. -/
theorem weight_lt {name callee : Nonterminal} {stream : TokenStream} {start position : Nat}
    (hbound : position ≤ stream.body.size)
    (h : start < position ∨ start = position ∧ callee.rank < name.rank) :
    callee.weight stream position < name.weight stream start := by
  have := callee.rank_lt
  unfold weight
  omega

/-- With depth enough for its weight a nonterminal keeps its contract, and nothing ever goes wrong
on the way. -/
theorem run_kept (instead : Nonterminal → Action) (depth depth' : Nat) (name : Nonterminal)
    (setting : Setting) {origin start : Nat} {situation : Situation} {nodes : List Node}
    {cursor : Cursor} (hready : name.Ready situation)
    (hholds : situation.Holds setting.dialect setting.stream origin start nodes cursor)
    (hdepth : name.weight setting.stream cursor.position < depth)
    (hdepth' : name.weight setting.stream cursor.position < depth') :
    run depth name setting nodes cursor = guarded instead depth' name setting nodes cursor ∧
      name.Kept setting origin cursor.position situation (run depth name setting nodes cursor) := by
  induction depth generalizing depth' name setting origin start situation nodes cursor with
  | zero => omega
  | succ depth ih =>
    obtain ⟨depth', rfl⟩ : ∃ n, depth' = n + 1 := ⟨depth' - 1, by omega⟩
    have hcalls : Calls (run depth) (fun callee setting nodes inner =>
        if callee = name ∧ inner.position ≤ cursor.position then instead callee setting nodes inner
        else guarded instead depth' callee setting nodes inner)
        setting.dialect setting.stream name.rank cursor.position := by
      intro callee inner origin' situation' nodes' cursor' hstream hdialect hready' hholds' hcall
      have hweight : callee.weight setting.stream cursor'.position <
          name.weight setting.stream cursor.position := weight_lt hholds'.bound hcall
      obtain ⟨hsame, hkept⟩ := ih depth' callee inner hready' (by rw [hstream, hdialect]; exact hholds')
        (by rw [hstream]; omega) (by rw [hstream]; omega)
      refine ⟨?_, hkept⟩
      -- a lighter call is not the same one over again
      have hmoves : ¬(callee = name ∧ cursor'.position ≤ cursor.position) := by
        rintro ⟨rfl, hle⟩
        omega
      exact hsame.trans (if_neg hmoves).symm
    have hsound := name.sound setting.dialect setting.context situation hready.2
    obtain ⟨hsame, hmeets⟩ := hsound.reaches hcalls (hholds.enter hready) le_rfl
    constructor
    · simp only [run, guarded, ← hsame, hmeets.isSound, if_true]
    · refine hmeets.imp fun hle ⟨last, ⟨effect, heffect, hrefines⟩, hlast⟩ => ?_
      exact ⟨effect, heffect, hlast.of_refines hrefines⟩

def guardedAction (instead : Nonterminal → Action) (name : Nonterminal) : Action :=
  fun setting nodes cursor =>
    guarded instead (callDepth setting.stream) name setting nodes cursor

theorem weight_lt_callDepth (name : Nonterminal) (stream : TokenStream) (position : Nat) :
    name.weight stream position < callDepth stream := by
  have := name.rank_lt
  unfold weight callDepth TokenStream.size
  omega

theorem calls_run (instead : Nonterminal → Action) {dialect : Dialect} {stream : TokenStream}
    {depth depth' start : Nat} (hdepth : callDepth stream ≤ depth)
    (hdepth' : callDepth stream ≤ depth') :
    Calls (run depth) (guarded instead depth') dialect stream 16 start := by
  intro name setting origin situation nodes cursor hstream hdialect hready hholds _
  have hweight := name.weight_lt_callDepth stream cursor.position
  subst hstream hdialect
  exact run_kept instead depth depth' name setting hready hholds (by omega) (by omega)

theorem calls_action (instead : Nonterminal → Action) {dialect : Dialect} {stream : TokenStream}
    {start : Nat} : Calls action (guardedAction instead) dialect stream 16 start := by
  intro name setting origin situation nodes cursor hstream
  subst hstream
  exact calls_run instead le_rfl le_rfl name setting origin situation nodes cursor rfl

theorem run_eq_action {name : Nonterminal} {setting : Setting} {origin start : Nat}
    {situation : Situation} {nodes : List Node} {cursor : Cursor} {depth : Nat}
    (hdepth : callDepth setting.stream ≤ depth) (hready : name.Ready situation)
    (hholds : situation.Holds setting.dialect setting.stream origin start nodes cursor) :
    run depth name setting nodes cursor = name.action setting nodes cursor := by
  have hweight := name.weight_lt_callDepth setting.stream cursor.position
  have hrun (depth : Nat) (h : callDepth setting.stream ≤ depth) :=
    (run_kept action depth (callDepth setting.stream) name setting hready hholds (by omega)
      (by omega)).1
  exact (hrun depth hdepth).trans (hrun _ le_rfl).symm

theorem calls_of_le {dialect : Dialect} {stream : TokenStream} {depth start : Nat}
    (hdepth : callDepth stream ≤ depth) : Calls (run depth) action dialect stream 16 start := by
  intro name setting origin situation nodes cursor hstream hdialect hready hholds _
  have hweight := name.weight_lt_callDepth stream cursor.position
  subst hstream hdialect
  refine ⟨run_eq_action hdepth hready hholds, ?_⟩
  exact (run_kept action depth depth name setting hready hholds (by omega) (by omega)).2

end Nonterminal

end LosslessSyntax
