import LosslessSyntax.Proofs.Stateful.Machine
import LosslessSyntax.Proofs.Window
/-!
The machine does what runs do, and it keeps its state in order: what is set is put back whether the
part within reads or fails, and no token is read that the cursor does not count as looked at.
-/
namespace LosslessSyntax

theorem Cursor.advance_examineHere (cursor : Cursor) (stream : TokenStream) :
    (cursor.examineHere stream).advance stream = cursor.advance stream := by
  simp [advance, examineHere, examine]

namespace Machine

section Steps

variable (machine : Machine) (recovery : Recovery)

theorem look_eq (index : Nat) :
    machine.look index = (machine.stream.get index,
      { machine with
        cursor := machine.cursor.examine machine.stream index
        reads := machine.stream.clamp index :: machine.reads }) :=
  Prod.ext (machine.stream.get_clamp index) rfl

theorem lookHere_eq :
    machine.lookHere = (machine.stream.get machine.cursor.position,
      { machine with
        cursor := machine.cursor.examineHere machine.stream
        reads := machine.stream.clamp machine.cursor.position :: machine.reads }) :=
  machine.look_eq _

theorem advance_eq :
    machine.advance = (machine.stream.get machine.cursor.position,
      { machine with
        cursor := machine.cursor.advance machine.stream
        reads := machine.stream.clamp machine.cursor.position :: machine.cursor.position ::
          machine.reads }) := by
  by_cases hkind : (machine.stream.get machine.cursor.position).kind = .eof
  · simp [advance, glance, look_eq, Cursor.advance, Cursor.examineHere, TokenStream.kind, hkind]
  · simp [advance, glance, look_eq, Cursor.advance, Cursor.examineHere, Cursor.examine,
      TokenStream.kind, hkind]

theorem kind_lookHere :
    machine.lookHere.1.kind = machine.stream.kind machine.cursor.position :=
  congrArg (·.1.kind) machine.lookHere_eq

theorem skipUntil_succ (fuel : Nat) :
    machine.skipUntil recovery (fuel + 1) =
      if machine.stream.kind machine.cursor.position = .eof ∨
          machine.stream.kind machine.cursor.position ∈ recovery.stop then machine.lookHere.2
      else if machine.stream.kind machine.cursor.position ∈ recovery.inclusive then
        machine.lookHere.2.advance.2
      else machine.lookHere.2.advance.2.skipUntil recovery fuel := by
  rw [← kind_lookHere]
  rfl

theorem skip_eq (start : Nat) :
    machine.skip recovery start =
      if machine.cursor.position = start ∧ recovery.forceProgress then
        if machine.stream.kind machine.cursor.position = .eof then machine.lookHere.2
        else if machine.stream.kind machine.cursor.position ∈ recovery.inclusive then
          machine.lookHere.2.advance.2
        else machine.lookHere.2.advance.2.skipUntil recovery machine.stream.size
      else machine.skipUntil recovery machine.stream.size := by
  rw [← kind_lookHere]
  rfl

end Steps

/-- A machine has come to another state, with a cursor. But for the cursor and the record the state
is as it was, and no token read since is behind the furthest one. -/
structure Becomes (machine after : Machine) (later : Cursor) : Prop where
  stream : after.stream = machine.stream
  dialect : after.dialect = machine.dialect
  context : after.context = machine.context
  cursor : after.cursor = later
  reads : ∃ more, after.reads = more ++ machine.reads ∧ ∀ index ∈ more, index ≤ later.furthest

namespace Becomes

variable {machine after : Machine} {cursor : Cursor}

theorem refl (machine : Machine) : machine.Becomes machine machine.cursor :=
  ⟨rfl, rfl, rfl, rfl, [], rfl, by simp⟩

theorem rewind (h : machine.Becomes after cursor) (position : Nat) :
    machine.Becomes { after with cursor := after.cursor.rewind position }
      (cursor.rewind position) :=
  ⟨h.stream, h.dialect, h.context, congrArg (·.rewind position) h.cursor, h.reads⟩

theorem step (h : machine.Becomes after cursor) {later : Cursor} {indices : List Nat}
    (hle : cursor.furthest ≤ later.furthest)
    (hindices : ∀ index ∈ indices, index ≤ later.furthest) :
    machine.Becomes { after with cursor := later, reads := indices ++ after.reads } later := by
  obtain ⟨more, hmore, hbound⟩ := h.reads
  refine ⟨h.stream, h.dialect, h.context, rfl, indices ++ more, by simp [hmore], ?_⟩
  intro index hindex
  rcases List.mem_append.mp hindex with hindex | hindex
  · exact hindices index hindex
  · exact (hbound index hindex).trans hle

theorem look (h : machine.Becomes after cursor) (index : Nat) :
    machine.Becomes (after.look index).2 (cursor.examine machine.stream index) := by
  obtain rfl := h.cursor
  have hread : ∀ read ∈ [after.stream.clamp index],
      read ≤ (after.cursor.examine after.stream index).furthest :=
    List.forall_mem_singleton.mpr (Nat.le_max_right _ _)
  rw [look_eq, ← h.stream]
  exact h.step (Nat.le_max_left _ _) hread

theorem lookHere (h : machine.Becomes after cursor) :
    machine.Becomes after.lookHere.2 (cursor.examineHere machine.stream) := by
  obtain rfl := h.cursor
  exact h.look _

theorem advance (h : machine.Becomes after cursor)
    (hbound : cursor.position ≤ machine.stream.body.size) :
    machine.Becomes after.advance.2 (cursor.advance machine.stream) := by
  obtain rfl := h.cursor
  rw [← h.stream] at hbound ⊢
  have hread := Cursor.Reaches.clamp_le_advance after.cursor after.stream
  rw [advance_eq, TokenStream.clamp_eq_self hbound]
  rw [TokenStream.clamp_eq_self hbound] at hread
  have hreads : ∀ read ∈ [after.cursor.position, after.cursor.position],
      read ≤ (after.cursor.advance after.stream).furthest := by
    simpa using hread
  exact h.step (Cursor.Reaches.advance _ _).furthest_le hreads

theorem advance_lookHere (h : machine.Becomes after cursor)
    (hbound : cursor.position ≤ machine.stream.body.size) :
    machine.Becomes after.lookHere.2.advance.2 (cursor.advance machine.stream) := by
  rw [← Cursor.advance_examineHere]
  exact h.lookHere.advance hbound

theorem skipUntil (h : machine.Becomes after cursor) (recovery : Recovery) (fuel : Nat)
    (hbound : cursor.position ≤ machine.stream.body.size) :
    machine.Becomes (after.skipUntil recovery fuel)
      (cursor.skipUntil recovery machine.stream fuel) := by
  induction fuel generalizing after cursor with
  | zero => exact h
  | succ fuel ih =>
    have hmoved := h.advance_lookHere hbound
    simp only [skipUntil_succ, Cursor.skipUntil, h.stream, h.cursor]
    split
    · exact h.lookHere
    split
    · exact hmoved
    · exact ih hmoved (Cursor.advance_position_le hbound)

theorem skip (h : machine.Becomes after cursor) (recovery : Recovery) (start : Nat)
    (hbound : cursor.position ≤ machine.stream.body.size) :
    machine.Becomes (after.skip recovery start) (cursor.skip recovery machine.stream start) := by
  simp only [skip_eq, Cursor.skip, h.stream, h.cursor]
  by_cases hforced : cursor.position = start ∧ recovery.forceProgress
  · rw [if_pos hforced]
    by_cases hkind : machine.stream.kind cursor.position = .eof
    · -- whether to force a step is seen at the end of file, where the skipping ends at once
      rw [if_pos hkind, if_neg fun hgoes => hgoes.2.2 hkind, TokenStream.size, Cursor.skipUntil,
        if_pos (.inl hkind)]
      exact h.lookHere
    · have hgoes : cursor.position = start ∧ recovery.forceProgress ∧
          machine.stream.kind cursor.position ≠ .eof := ⟨hforced.1, hforced.2, hkind⟩
      have hmoved := h.advance_lookHere hbound
      rw [if_neg hkind, if_pos hgoes]
      split
      · exact hmoved
      · exact hmoved.skipUntil recovery _ (Cursor.advance_position_le hbound)
  · rw [if_neg hforced, if_neg fun hgoes => hforced ⟨hgoes.1, hgoes.2.1⟩]
    exact h.skipUntil recovery _ hbound

theorem glanceAll (h : machine.Becomes after cursor) {start stop : Nat}
    (hlooked : stop ≤ start ∨ stop ≤ cursor.furthest + 1) :
    machine.Becomes (after.glanceAll start stop).2 cursor := by
  obtain rfl := h.cursor
  refine h.step le_rfl fun index hindex => ?_
  rw [List.mem_range'_1] at hindex
  omega

end Becomes

def Performs (machine : Machine) (reading : Except Diagnostic α × Machine) : Outcome α → Prop
  | .done value cursor =>
    ∃ after, reading = (.ok value, after) ∧ machine.Becomes after cursor
  | .failed diagnostic cursor =>
    ∃ after, reading = (.error diagnostic, after) ∧ machine.Becomes after cursor

theorem Becomes.recover {machine after : Machine} {cursor : Cursor}
    (h : machine.Becomes after cursor) (recovery : Recovery) {start : Nat} (diagnostic : Diagnostic)
    (hbound : cursor.position ≤ machine.stream.body.size)
    (hlooked : cursor.position ≤ start ∨ cursor.position ≤ cursor.furthest + 1) :
    machine.Performs (after.recover recovery start diagnostic)
      (machine.stream.recover recovery start diagnostic cursor) := by
  unfold Machine.recover TokenStream.recover
  split
  · exact ⟨_, rfl, h⟩
  · have hskip := h.skip recovery start hbound
    have hreaches := Cursor.Reaches.skip recovery start cursor machine.stream
    have hstop : (cursor.skip recovery machine.stream start).position ≤ start ∨
        (cursor.skip recovery machine.stream start).position ≤
          ((cursor.skip recovery machine.stream start).examine machine.stream
            start).furthest + 1 := by
      have := hreaches.looked
      have := hreaches.furthest_le
      have := (Cursor.Reaches.examine (cursor.skip recovery machine.stream start) machine.stream
        start).furthest_le
      omega
    refine ⟨_, ?_, (hskip.look start).glanceAll hstop⟩
    simp only [look_eq, Machine.glanceAll, TokenStream.errorNode, hskip.stream, hskip.cursor,
      Cursor.examine_position]

variable {machine after : Machine} {cursor : Cursor}

theorem Becomes.within (h : machine.Becomes after cursor) (context : Context) :
    Becomes { machine with context } { after with context } cursor :=
  ⟨h.stream, h.dialect, rfl, h.cursor, h.reads⟩

theorem Performs.restored {context : Context} {reading : Except Diagnostic α × Machine}
    {outcome : Outcome α} (h : Performs { machine with context } reading outcome)
    (hcontext : after.context = machine.context) :
    machine.Performs (reading.1, { reading.2 with context := after.context }) outcome := by
  cases outcome with
  | done =>
    obtain ⟨later, rfl, hlater⟩ := h
    exact ⟨_, rfl, hlater.stream, hlater.dialect, hcontext, hlater.cursor, hlater.reads⟩
  | failed =>
    obtain ⟨later, rfl, hlater⟩ := h
    exact ⟨_, rfl, hlater.stream, hlater.dialect, hcontext, hlater.cursor, hlater.reads⟩

end Machine

def MachineAction.Follows (exec : MachineAction) (action : Action) : Prop :=
  ∀ (machine after : Machine) (name : String) (nodes : List Node) (cursor : Cursor),
    machine.Becomes after cursor → cursor.position ≤ machine.stream.body.size →
    machine.Performs (exec name nodes after) (action (machine.setting name) nodes cursor)

namespace MachineAction.Follows

variable {expand : Nonterminal → Action} {expand' : Nonterminal → MachineAction}
  {rule first next trial otherwise : Rule}

theorem wrap (kind : NodeKind) :
    ((Rule.wrap kind).exec expand').Follows ((Rule.wrap kind).run expand) := by
  intro machine after name nodes cursor h hbound
  cases nodes with
  | nil =>
    refine ⟨after.lookHere.2, ?_, h.lookHere⟩
    simp only [Rule.exec, Machine.lookHere_eq, h.stream, h.cursor, Machine.setting]
  | cons first rest =>
    refine ⟨after, ?_, h⟩
    simp [Rule.exec, Node.ofChildren, Node.spanOf, List.getLast?_cons]

theorem apart (h : (rule.exec expand').Follows (rule.run expand)) :
    ((Rule.apart rule).exec expand').Follows ((Rule.apart rule).run expand) := by
  intro machine after name nodes cursor hafter hbound
  have hrule := h machine after name [] cursor hafter hbound
  simp only [Rule.run, Rule.exec]
  rcases hrun : rule.run expand (machine.setting name) [] cursor with
    ⟨more, later⟩ | ⟨diagnostic, later⟩
  all_goals
    rw [hrun] at hrule
    obtain ⟨middle, hexec, hmiddle⟩ := hrule
    rw [hexec]
    exact ⟨middle, rfl, hmiddle⟩

variable (hadvances : ∀ name, (expand name).Advances)

include hadvances

theorem seq (hfirst : (first.exec expand').Follows (first.run expand))
    (hnext : (next.exec expand').Follows (next.run expand)) :
    ((first.seq next).exec expand').Follows ((first.seq next).run expand) := by
  intro machine after name nodes cursor hafter hbound
  have hread := hfirst machine after name nodes cursor hafter hbound
  have hreaches := first.run_advances hadvances (machine.setting name) nodes cursor
  simp only [Rule.run, Rule.exec]
  rcases hrun : first.run expand (machine.setting name) nodes cursor with
    ⟨read, later⟩ | ⟨diagnostic, later⟩
  · rw [hrun] at hread hreaches
    obtain ⟨middle, hexec, hmiddle⟩ := hread
    rw [hexec]
    exact hnext machine middle name read later hmiddle (hreaches.position_bound hbound)
  · rw [hrun] at hread
    obtain ⟨middle, hexec, hmiddle⟩ := hread
    rw [hexec]
    exact ⟨middle, rfl, hmiddle⟩

theorem attempt (htrial : (trial.exec expand').Follows (trial.run expand))
    (hnext : (next.exec expand').Follows (next.run expand))
    (hotherwise : (otherwise.exec expand').Follows (otherwise.run expand)) :
    ((Rule.attempt trial next otherwise).exec expand').Follows
      ((Rule.attempt trial next otherwise).run expand) := by
  intro machine after name nodes cursor hafter hbound
  have hread := htrial machine after name nodes cursor hafter hbound
  have hreaches := trial.run_advances hadvances (machine.setting name) nodes cursor
  simp only [Rule.run, Rule.exec, hafter.cursor]
  rcases hrun : trial.run expand (machine.setting name) nodes cursor with
    ⟨read, later⟩ | ⟨diagnostic, later⟩
  · rw [hrun] at hread hreaches
    obtain ⟨middle, hexec, hmiddle⟩ := hread
    rw [hexec]
    exact hnext machine middle name read later hmiddle (hreaches.position_bound hbound)
  · rw [hrun] at hread
    obtain ⟨failed, hexec, hfailed⟩ := hread
    rw [hexec]
    exact hotherwise machine _ name nodes _ (hfailed.rewind cursor.position) hbound

/-- A part that fails has read no more than it has looked at, so its tokens may be read again. -/
theorem recover (recovery : Recovery) (h : (rule.exec expand').Follows (rule.run expand)) :
    ((Rule.recover recovery rule).exec expand').Follows
      ((Rule.recover recovery rule).run expand) := by
  intro machine after name nodes cursor hafter hbound
  have hrule := h machine after name [] cursor hafter hbound
  have hreaches := rule.run_advances hadvances (machine.setting name) [] cursor
  simp only [Rule.run, Rule.exec, hafter.cursor]
  rcases hrun : rule.run expand (machine.setting name) [] cursor with
    ⟨more, later⟩ | ⟨diagnostic, later⟩
  · rw [hrun] at hrule
    obtain ⟨middle, hexec, hmiddle⟩ := hrule
    rw [hexec]
    exact ⟨middle, rfl, hmiddle⟩
  · rw [hrun] at hrule hreaches
    obtain ⟨failed, hexec, hfailed⟩ := hrule
    have hrecover := hfailed.recover recovery diagnostic (hreaches.position_bound hbound)
      hreaches.looked
    rw [hexec]
    simp only [Machine.setting]
    rcases houtcome : machine.stream.recover recovery cursor.position diagnostic later with
      ⟨node, last⟩ | ⟨diagnostic, last⟩
    all_goals
      rw [houtcome] at hrecover
      obtain ⟨recovered, hreading, hrecovered⟩ := hrecover
      rw [hreading]
      exact ⟨recovered, rfl, hrecovered⟩

end MachineAction.Follows

/-- What rules have a machine do is what their runs do, if that holds of the nonterminals they call.
-/
theorem Rule.exec_follows {expand : Nonterminal → Action} {expand' : Nonterminal → MachineAction}
    (hadvances : ∀ name, (expand name).Advances)
    (hexpand : ∀ name, (expand' name).Follows (expand name)) (rule : Rule) :
    (rule.exec expand').Follows (rule.run expand) := by
  induction rule with
  | seq first next ihFirst ihNext => exact .seq hadvances ihFirst ihNext
  | wrap kind => exact .wrap kind
  | apart rule ih => exact .apart ih
  | call callee => exact hexpand callee
  | recover recovery rule ih => exact .recover hadvances recovery ih
  | attempt trial next otherwise ihTrial ihNext ihOtherwise =>
    exact .attempt hadvances ihTrial ihNext ihOtherwise
  | empty | label | labelInner => exact fun machine after name nodes cursor h _ => ⟨after, rfl, h⟩
  | take kind =>
    intro machine after name nodes cursor h hbound
    refine ⟨after.advance.2, ?_, h.advance hbound⟩
    simp only [exec, Machine.advance_eq, h.stream, h.cursor, Machine.setting]
  | look distance next ih =>
    intro machine after name nodes cursor h hbound
    have hkind : (after.look (cursor.position + distance)).1.kind =
        machine.stream.kind (cursor.position + distance) := by
      rw [Machine.look_eq, h.stream]
      rfl
    simp only [run, exec, h.cursor, hkind]
    exact ih _ machine _ name nodes _ (h.look _) hbound
  | fail failure =>
    intro machine after name nodes cursor h hbound
    refine ⟨after.lookHere.2, ?_, h.lookHere⟩
    simp only [exec, Machine.lookHere_eq, h.stream, h.cursor, Machine.setting]
  | within context rule ih =>
    intro machine after name nodes cursor h hbound
    have hrule := ih { machine with context } { after with context } name nodes cursor
      (h.within context) hbound
    exact hrule.restored h.context
  | byContext next ih =>
    intro machine after name nodes cursor h hbound
    simp only [run, exec, h.context]
    exact ih _ machine after name nodes cursor h hbound
  | byDialect next ih =>
    intro machine after name nodes cursor h hbound
    simp only [run, exec, h.dialect]
    exact ih _ machine after name nodes cursor h hbound
  | byOperand next ih =>
    exact fun machine after name nodes => ih (Operand.ofNodes nodes) machine after name nodes
  | naming rule ih =>
    intro machine after name nodes cursor h hbound
    have hvalue : after.lookHere.1.value = (machine.stream.get cursor.position).value := by
      rw [Machine.lookHere_eq, h.stream, h.cursor]
    simp only [run, exec, hvalue]
    exact ih machine _ _ nodes _ h.lookHere hbound

namespace Nonterminal

theorem exec_follows (depth : Nat) (name : Nonterminal) :
    (name.exec depth).Follows (name.run depth) := by
  induction depth generalizing name with
  | zero => exact fun machine after quoted nodes cursor h _ => ⟨after, rfl, h⟩
  | succ depth ih => exact name.rule.exec_follows (run_advances depth) ih

theorem machineAction_follows (name : Nonterminal) : name.machineAction.Follows name.action := by
  intro machine after quoted nodes cursor h hbound
  unfold machineAction
  rw [h.stream]
  exact name.exec_follows _ machine after quoted nodes cursor h hbound

end Nonterminal

end LosslessSyntax
