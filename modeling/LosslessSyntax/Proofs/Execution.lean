import LosslessSyntax.Parse.Run
/-!
Symbolic execution: what has to hold before a rule runs for something to hold of its outcome, one
equation for each step of a rule. A failure is worth what `failed` says, so that the same equations
serve to show that a rule reads and to say what is read if it does.
-/
namespace LosslessSyntax

/-- What is asked of an outcome: of a result that it is as `done` says, and of a failure that it may
be one. -/
def Outcome.Satisfies (failed : Prop) (done : α → Cursor → Prop) : Outcome α → Prop
  | .done value cursor => done value cursor
  | .failed _ _ => failed

namespace Outcome

variable {failed failed' : Prop} {done done' : α → Cursor → Prop} {outcome : Outcome α}

theorem Satisfies.imp (h : outcome.Satisfies failed done)
    (hdone : ∀ {value cursor}, done value cursor → done' value cursor) :
    outcome.Satisfies failed done' := by
  cases outcome with
  | done => exact hdone h
  | failed => exact h

theorem Satisfies.and (h : outcome.Satisfies failed done) (h' : outcome.Satisfies failed done') :
    outcome.Satisfies failed fun value cursor => done value cursor ∧ done' value cursor := by
  cases outcome with
  | done => exact ⟨h, h'⟩
  | failed => exact h

theorem Satisfies.of_forall (h : ∀ value cursor, done value cursor) :
    outcome.Satisfies True done := by
  cases outcome with
  | done => exact h _ _
  | failed => trivial

theorem satisfies_false_iff :
    outcome.Satisfies False done ↔
      ∃ value cursor, outcome = .done value cursor ∧ done value cursor := by
  cases outcome with
  | done value cursor =>
    refine ⟨fun h => ⟨value, cursor, rfl, h⟩, ?_⟩
    rintro ⟨_, _, ⟨⟩, h⟩
    exact h
  | failed => simp [Satisfies]

end Outcome

namespace Rule

variable {expand : Nonterminal → Action} {setting : Setting} {nodes : List Node} {cursor : Cursor}
  {failed : Prop} {done : List Node → Cursor → Prop}

@[simp] theorem satisfies_empty :
    (Rule.empty.run expand setting nodes cursor).Satisfies failed done ↔ done nodes cursor :=
  Iff.rfl

theorem satisfies_seq {first next : Rule} :
    ((first.seq next).run expand setting nodes cursor).Satisfies failed done ↔
      (first.run expand setting nodes cursor).Satisfies failed fun nodes cursor =>
        (next.run expand setting nodes cursor).Satisfies failed done := by
  simp only [run]
  split <;> rename_i hrun <;> simp only [hrun, Outcome.Satisfies]

@[simp] theorem satisfies_steps_singleton {rule : Rule} :
    ((steps [rule]).run expand setting nodes cursor).Satisfies failed done ↔
      (rule.run expand setting nodes cursor).Satisfies failed done := Iff.rfl

@[simp] theorem satisfies_steps_cons {rule next : Rule} {rules : List Rule} :
    ((steps (rule :: next :: rules)).run expand setting nodes cursor).Satisfies failed done ↔
      (rule.run expand setting nodes cursor).Satisfies failed fun nodes cursor =>
        ((steps (next :: rules)).run expand setting nodes cursor).Satisfies failed done :=
  satisfies_seq

@[simp] theorem satisfies_take {kind : Option NodeKind} :
    ((Rule.take kind).run expand setting nodes cursor).Satisfies failed done ↔
      done (nodes ++ [.ofTokenAs kind (setting.stream.get cursor.position)])
        (cursor.advance setting.stream) := Iff.rfl

@[simp] theorem satisfies_look {distance : Nat} {next : TokenKind → Rule} :
    ((Rule.look distance next).run expand setting nodes cursor).Satisfies failed done ↔
      ((next (setting.stream.kind (cursor.position + distance))).run expand setting nodes
        (cursor.examine setting.stream (cursor.position + distance))).Satisfies failed done := Iff.rfl

@[simp] theorem satisfies_onKind {next : TokenKind → Rule} :
    ((onKind next).run expand setting nodes cursor).Satisfies failed done ↔
      ((next (setting.stream.kind cursor.position)).run expand setting nodes
        (cursor.examineHere setting.stream)).Satisfies failed done := Iff.rfl

@[simp] theorem satisfies_ifAt {kind : TokenKind} {yes no : Rule} :
    ((ifAt kind yes no).run expand setting nodes cursor).Satisfies failed done ↔
      (setting.stream.kind cursor.position = kind →
        (yes.run expand setting nodes (cursor.examineHere setting.stream)).Satisfies failed done) ∧
      (setting.stream.kind cursor.position ≠ kind →
        (no.run expand setting nodes (cursor.examineHere setting.stream)).Satisfies failed done) := by
  simp only [ifAt, satisfies_onKind]
  split <;> simp [*]

@[simp] theorem satisfies_expectAs {kind : TokenKind} {what : String} :
    ((expectAs kind what).run expand setting nodes cursor).Satisfies failed done ↔
      (setting.stream.kind cursor.position = kind →
        done (nodes ++ [.ofToken (setting.stream.get cursor.position)])
          ((cursor.examineHere setting.stream).advance setting.stream)) ∧
      (setting.stream.kind cursor.position ≠ kind → failed) := satisfies_ifAt

@[simp] theorem satisfies_expect {kind : TokenKind} :
    ((expect kind).run expand setting nodes cursor).Satisfies failed done ↔
      (setting.stream.kind cursor.position = kind →
        done (nodes ++ [.ofToken (setting.stream.get cursor.position)])
          ((cursor.examineHere setting.stream).advance setting.stream)) ∧
      (setting.stream.kind cursor.position ≠ kind → failed) := satisfies_expectAs

@[simp] theorem satisfies_fail {failure : Failure} :
    ((Rule.fail failure).run expand setting nodes cursor).Satisfies failed done ↔ failed := Iff.rfl

@[simp] theorem satisfies_label {field : Field} :
    ((Rule.label field).run expand setting nodes cursor).Satisfies failed done ↔
      done (replaceLast (fun node => [node.withField field]) nodes) cursor := Iff.rfl

@[simp] theorem satisfies_labelInner {field : Field} :
    ((Rule.labelInner field).run expand setting nodes cursor).Satisfies failed done ↔
      done (replaceLast (Node.innerInField field) nodes) cursor := Iff.rfl

@[simp] theorem satisfies_wrap {kind : NodeKind} :
    ((Rule.wrap kind).run expand setting nodes cursor).Satisfies failed done ↔
      done [.ofChildren kind (setting.stream.get cursor.position).span.start nodes]
        (if nodes.isEmpty then cursor.examineHere setting.stream else cursor) := Iff.rfl

@[simp] theorem satisfies_apart {rule : Rule} :
    ((Rule.apart rule).run expand setting nodes cursor).Satisfies failed done ↔
      (rule.run expand setting [] cursor).Satisfies failed fun more cursor =>
        done (nodes ++ more) cursor := by
  simp only [run]
  split <;> rename_i hrun <;> simp only [hrun, Outcome.Satisfies]

@[simp] theorem satisfies_call {name : Nonterminal} :
    ((Rule.call name).run expand setting nodes cursor).Satisfies failed done ↔
      (expand name setting nodes cursor).Satisfies failed done := Iff.rfl

@[simp] theorem satisfies_child {name : Nonterminal} :
    ((child name).run expand setting nodes cursor).Satisfies failed done ↔
      (expand name setting [] cursor).Satisfies failed fun more cursor =>
        done (nodes ++ more) cursor := satisfies_apart

@[simp] theorem satisfies_within {context : Context} {rule : Rule} :
    ((Rule.within context rule).run expand setting nodes cursor).Satisfies failed done ↔
      (rule.run expand { setting with context } nodes cursor).Satisfies failed done := Iff.rfl

@[simp] theorem satisfies_byContext {next : Context → Rule} :
    ((Rule.byContext next).run expand setting nodes cursor).Satisfies failed done ↔
      ((next setting.context).run expand setting nodes cursor).Satisfies failed done := Iff.rfl

@[simp] theorem satisfies_byDialect {next : Dialect → Rule} :
    ((Rule.byDialect next).run expand setting nodes cursor).Satisfies failed done ↔
      ((next setting.dialect).run expand setting nodes cursor).Satisfies failed done := Iff.rfl

@[simp] theorem satisfies_byOperand {next : Option Operand → Rule} :
    ((Rule.byOperand next).run expand setting nodes cursor).Satisfies failed done ↔
      ((next (Operand.ofNodes nodes)).run expand setting nodes cursor).Satisfies failed done :=
  Iff.rfl

@[simp] theorem satisfies_naming {rule : Rule} :
    ((Rule.naming rule).run expand setting nodes cursor).Satisfies failed done ↔
      (rule.run expand { setting with name := (setting.stream.get cursor.position).value } nodes
        (cursor.examineHere setting.stream)).Satisfies failed done := Iff.rfl

@[simp] theorem satisfies_inField {field : Field} {rule : Rule} :
    ((inField field rule).run expand setting nodes cursor).Satisfies failed done ↔
      (rule.run expand setting nodes cursor).Satisfies failed fun nodes cursor =>
        done (replaceLast (fun node => [node.withField field]) nodes) cursor :=
  satisfies_steps_cons

theorem satisfies_recover {recovery : Recovery} {rule : Rule}
    (hrule : (rule.run expand setting [] cursor).Satisfies True fun more cursor =>
      done (nodes ++ more) cursor)
    (herror : ∀ stop diagnostic after,
      done (nodes ++ [setting.stream.errorNode cursor.position stop diagnostic]) after) :
    ((Rule.recover recovery rule).run expand setting nodes cursor).Satisfies True done := by
  simp only [run, TokenStream.recover]
  split
  · rename_i hrun
    rw [hrun] at hrule
    exact hrule
  · rename_i diagnostic _ _
    by_cases hinternal : diagnostic.isInternal
    · simp only [hinternal, if_true, Outcome.Satisfies]
    · simp only [hinternal, Bool.false_eq_true, if_false]
      exact herror _ _ _

theorem satisfies_attempt {trial next otherwise : Rule}
    (htrial : (trial.run expand setting nodes cursor).Satisfies True fun nodes cursor =>
      (next.run expand setting nodes cursor).Satisfies failed done)
    (hotherwise : ∀ furthest,
      (otherwise.run expand setting nodes ⟨cursor.position, furthest⟩).Satisfies failed done) :
    ((Rule.attempt trial next otherwise).run expand setting nodes cursor).Satisfies failed done := by
  simp only [run]
  split
  · rename_i hrun
    rw [hrun] at htrial
    exact htrial
  · exact hotherwise _

end Rule

end LosslessSyntax
