import LosslessSyntax.Proofs.Execution
import LosslessSyntax.Proofs.Reach
/-!
Two runs of a rule side by side, for as long as what the first of them reads is sound. What is sound
is a property of nodes that a run cannot bring back: if all is sound at its end, then all was sound
before.
-/
namespace LosslessSyntax

open Node (Throughout)

/-- A property of nodes in which slots have no say, and neither have parentheses that are taken
away. -/
structure Node.Lingers (P : Node → Prop) : Prop where
  withField : ∀ node field, P (node.withField field) ↔ P node
  grouped : ∀ node, node.kind = .groupedExpression → node.children ≠ [] → P node

def Action.RetainsAll (P : Node → Prop) (action : Action) : Prop :=
  ∀ (setting : Setting) (nodes : List Node) (cursor : Cursor),
    (action setting nodes cursor).Satisfies True fun after _ =>
      Throughout P after → Throughout P nodes

/-- Sound nodes that are read by a first run are read by a second one too, which ends at the same
token, where the goal holds. Or else the first one is stuck. -/
def Outcome.Follows (P : Node → Prop) (goal : Nat → Prop) (stuck : List Node → Nat → Prop)
    (first second : Outcome (List Node)) : Prop :=
  first.Satisfies True fun after cursor => Throughout P after →
    (∃ cursor', second = .done after cursor' ∧ cursor'.position = cursor.position ∧
      goal cursor.position) ∨ stuck after cursor.position

def Outcome.StaysStuck (P : Node → Prop) (stuck : List Node → Nat → Prop)
    (outcome : Outcome (List Node)) : Prop :=
  outcome.Satisfies True fun after cursor => Throughout P after → stuck after cursor.position

variable {P : Node → Prop}

namespace Node.Lingers

variable {node : Node} {nodes : List Node} {field : Field}

theorem of_label (hP : Lingers P)
    (h : Throughout P (replaceLast (fun node => [node.withField field]) nodes)) :
    Throughout P nodes := by
  rcases List.eq_nil_or_concat nodes with rfl | ⟨front, last, rfl⟩
  · exact h
  · rw [List.concat_eq_append, replaceLast_concat] at h
    simp only [List.concat_eq_append, Node.throughout_append, Node.throughout_cons, hP.withField]
      at h ⊢
    exact h

theorem of_innerInField (hP : Lingers P) (h : Throughout P (node.innerInField field)) :
    Throughout P [node] := by
  rcases node.innerInField_eq field with ⟨opening, inner, closing, hkind, hchildren, heq⟩ | heq <;>
    simp only [heq, Node.throughout_cons, hP.withField] at h ⊢
  · have hnode : P node := hP.grouped node hkind (by simp [hchildren])
    simp only [hchildren, Node.throughout_cons]
    exact ⟨hnode, h, Node.throughout_nil⟩
  · exact h

theorem of_labelInner (hP : Lingers P)
    (h : Throughout P (replaceLast (Node.innerInField field) nodes)) : Throughout P nodes := by
  rcases List.eq_nil_or_concat nodes with rfl | ⟨front, last, rfl⟩
  · exact h
  · rw [List.concat_eq_append, replaceLast_concat, Node.throughout_append] at h
    rw [List.concat_eq_append, Node.throughout_append]
    exact ⟨h.1, hP.of_innerInField h.2⟩

end Node.Lingers

namespace Outcome

variable {goal goal' : Nat → Prop} {stuck stuck' : List Node → Nat → Prop}
  {first second : Outcome (List Node)}

theorem Follows.imp (h : first.Follows P goal stuck second)
    (hgoal : ∀ position, goal position → goal' position)
    (hstuck : ∀ after position, stuck after position → stuck' after position) :
    first.Follows P goal' stuck' second := by
  refine Satisfies.imp h fun h hsound => (h hsound).imp ?_ (hstuck _ _)
  rintro ⟨cursor', hdone, hposition, hgoal'⟩
  exact ⟨cursor', hdone, hposition, hgoal _ hgoal'⟩

theorem StaysStuck.follows (h : first.StaysStuck P stuck) : first.Follows P goal stuck second :=
  Satisfies.imp h fun h hsound => .inr (h hsound)

end Outcome

namespace Rule

variable {expand : Nonterminal → Action} {setting setting' : Setting} {nodes : List Node}
  {cursor cursor' : Cursor} {goal goal' : Nat → Prop} {stuck stuck' : List Node → Nat → Prop}
  {rule first next otherwise trial : Rule}

theorem run_retainsAll (hP : Node.Lingers P) (hexpand : ∀ name, (expand name).RetainsAll P)
    (rule : Rule) : Action.RetainsAll P (rule.run expand) := by
  intro setting nodes cursor
  induction rule generalizing setting nodes cursor with
  | empty => exact id
  | seq first next ihFirst ihNext =>
    rw [satisfies_seq]
    refine (ihFirst setting nodes cursor).imp fun {after cursor} hfirst => ?_
    exact (ihNext setting after cursor).imp fun hnext h => hfirst (hnext h)
  | take kind => exact fun h => (Node.throughout_append.mp h).1
  | look distance next ih => exact ih _ setting nodes _
  | fail failure => trivial
  | label field =>
    rw [satisfies_label]
    exact hP.of_label
  | labelInner field =>
    rw [satisfies_labelInner]
    exact hP.of_labelInner
  | wrap kind =>
    rw [satisfies_wrap]
    simp only [Node.throughout_cons, Node.throughout_nil, and_true]
    exact fun h => h.2
  | apart rule ih =>
    rw [satisfies_apart]
    exact (ih setting [] cursor).imp fun _ h => (Node.throughout_append.mp h).1
  | call name => exact hexpand name setting nodes cursor
  | within context rule ih => exact ih _ nodes cursor
  | byContext next ih => exact ih _ setting nodes cursor
  | byDialect next ih => exact ih _ setting nodes cursor
  | byOperand next ih => exact ih _ setting nodes cursor
  | recover recovery rule ih =>
    refine satisfies_recover ?_ fun _ _ _ h => (Node.throughout_append.mp h).1
    exact (ih setting [] cursor).imp fun _ h => (Node.throughout_append.mp h).1
  | attempt trial next otherwise ihTrial ihNext ihOtherwise =>
    refine satisfies_attempt ?_ fun _ => ihOtherwise setting nodes _
    refine (ihTrial setting nodes cursor).imp fun {after cursor} htrial => ?_
    exact (ihNext setting after cursor).imp fun hnext h => htrial (hnext h)
  | naming rule ih => exact ih _ nodes _

section

variable (hretains : Action.RetainsAll P (next.run expand))

include hretains

theorem satisfies_seq_of_retains {Q : List Node → Cursor → Prop}
    (hfirst : (first.run expand setting nodes cursor).Satisfies True fun after cursor =>
      Throughout P after →
        (next.run expand setting after cursor).Satisfies True fun after cursor =>
          Throughout P after → Q after cursor) :
    ((first.seq next).run expand setting nodes cursor).Satisfies True fun after cursor =>
      Throughout P after → Q after cursor := by
  rw [satisfies_seq]
  refine hfirst.imp fun {after cursor} hnext => ?_
  by_cases hsound : Throughout P after
  · exact hnext hsound
  · exact (hretains setting after cursor).imp fun hretained h => absurd (hretained h) hsound

theorem staysStuck_seq (hfirst : (first.run expand setting nodes cursor).StaysStuck P stuck)
    (hnext : ∀ (after : List Node) (cursor : Cursor), stuck after cursor.position →
      (next.run expand setting after cursor).StaysStuck P stuck') :
    ((first.seq next).run expand setting nodes cursor).StaysStuck P stuck' :=
  satisfies_seq_of_retains hretains <|
    Outcome.Satisfies.imp hfirst fun hstuck hsound => hnext _ _ (hstuck hsound)

theorem follows_seq
    (hfirst : (first.run expand setting nodes cursor).Follows P goal stuck
      (first.run expand setting' nodes cursor'))
    (hnext : ∀ (after : List Node) (cursor cursor' : Cursor), cursor'.position = cursor.position →
      goal cursor.position → (next.run expand setting after cursor).Follows P goal' stuck'
        (next.run expand setting' after cursor'))
    (hstuck : ∀ (after : List Node) (cursor : Cursor), stuck after cursor.position →
      (next.run expand setting after cursor).StaysStuck P stuck') :
    ((first.seq next).run expand setting nodes cursor).Follows P goal' stuck'
      ((first.seq next).run expand setting' nodes cursor') := by
  refine satisfies_seq_of_retains hretains ?_
  refine Outcome.Satisfies.imp hfirst fun {after cursor} hfirst hsound => ?_
  rcases hfirst hsound with ⟨cursor', hdone, hposition, hgoal⟩ | hsticks
  · refine Outcome.Satisfies.imp (hnext after cursor cursor' hposition hgoal) fun hnext hsound => ?_
    rcases hnext hsound with ⟨last, hlast, hgoal⟩ | hsticks
    · left
      simp only [run, hdone, hlast]
      exact ⟨last, rfl, hgoal⟩
    · exact .inr hsticks
  · exact Outcome.Satisfies.imp (hstuck after cursor hsticks) fun h hsound => .inr (h hsound)

theorem follows_attempt
    (htrial : (trial.run expand setting nodes cursor).Follows P goal (fun _ _ => False)
      (trial.run expand setting' nodes cursor'))
    (hnext : ∀ (after : List Node) (cursor cursor' : Cursor), cursor'.position = cursor.position →
      goal cursor.position → (next.run expand setting after cursor).Follows P goal' stuck
        (next.run expand setting' after cursor'))
    (hotherwise : ∀ furthest,
      (otherwise.run expand setting nodes ⟨cursor.position, furthest⟩).StaysStuck P stuck) :
    ((Rule.attempt trial next otherwise).run expand setting nodes cursor).Follows P goal' stuck
      ((Rule.attempt trial next otherwise).run expand setting' nodes cursor') := by
  refine satisfies_attempt ?_ fun furthest => (hotherwise furthest).follows
  refine Outcome.Satisfies.imp htrial fun {after here} htrial => ?_
  by_cases hsound : Throughout P after
  · obtain ⟨here', hdone, hhere, hgoal⟩ := (htrial hsound).resolve_right id
    refine Outcome.Satisfies.imp (hnext after here here' hhere hgoal) fun hnext hsound => ?_
    refine (hnext hsound).imp_left ?_
    rintro ⟨later, hlater, hgoal⟩
    simp only [run, hdone]
    exact ⟨later, hlater, hgoal⟩
  · exact (hretains setting after here).imp fun hretained h => absurd (hretained h) hsound

end

theorem staysStuck_apart {stuck : List Node → Nat → Prop}
    (h : (rule.run expand setting [] cursor).StaysStuck P fun more => stuck (nodes ++ more)) :
    ((Rule.apart rule).run expand setting nodes cursor).StaysStuck P stuck := by
  rw [Outcome.StaysStuck, satisfies_apart]
  exact Outcome.Satisfies.imp h fun hrule hsound => hrule (Node.throughout_append.mp hsound).2

theorem follows_apart {stuck : List Node → Nat → Prop}
    (h : (rule.run expand setting [] cursor).Follows P goal (fun more => stuck (nodes ++ more))
      (rule.run expand setting' [] cursor')) :
    ((Rule.apart rule).run expand setting nodes cursor).Follows P goal stuck
      ((Rule.apart rule).run expand setting' nodes cursor') := by
  rw [Outcome.Follows, satisfies_apart]
  refine Outcome.Satisfies.imp h fun hrule hsound => ?_
  refine (hrule (Node.throughout_append.mp hsound).2).imp_left ?_
  rintro ⟨after, hdone, hafter⟩
  simp only [run, hdone]
  exact ⟨after, rfl, hafter⟩

section

variable {stuck : List Node → Nat → Prop} (herror : ∀ node : Node, P node → node.kind ≠ .error)

include herror

theorem not_throughout_errorNode {stream : TokenStream} {start stop : Nat}
    {diagnostic : Diagnostic} :
    ¬Throughout P (nodes ++ [stream.errorNode start stop diagnostic]) := fun h =>
  herror _ ((Node.throughout_append.mp h).2.of_mem List.mem_cons_self).1 rfl

theorem staysStuck_recover {recovery : Recovery}
    (h : (rule.run expand setting [] cursor).StaysStuck P fun more => stuck (nodes ++ more)) :
    ((Rule.recover recovery rule).run expand setting nodes cursor).StaysStuck P stuck := by
  refine satisfies_recover ?_ fun _ _ _ hsound => absurd hsound (not_throughout_errorNode herror)
  exact Outcome.Satisfies.imp h fun hrule hsound => hrule (Node.throughout_append.mp hsound).2

theorem follows_recover {recovery : Recovery}
    (h : (rule.run expand setting [] cursor).Follows P goal (fun more => stuck (nodes ++ more))
      (rule.run expand setting' [] cursor')) :
    ((Rule.recover recovery rule).run expand setting nodes cursor).Follows P goal stuck
      ((Rule.recover recovery rule).run expand setting' nodes cursor') := by
  refine satisfies_recover ?_ fun _ _ _ hsound => absurd hsound (not_throughout_errorNode herror)
  refine Outcome.Satisfies.imp h fun hrule hsound => ?_
  refine (hrule (Node.throughout_append.mp hsound).2).imp_left ?_
  rintro ⟨after, hdone, hafter⟩
  simp only [run, hdone]
  exact ⟨after, rfl, hafter⟩

end

end Rule

theorem Nonterminal.run_retainsAll (hP : Node.Lingers P) (depth : Nat) (name : Nonterminal) :
    Action.RetainsAll P (name.run depth) := by
  induction depth generalizing name with
  | zero => exact fun _ _ _ => trivial
  | succ depth ih => exact name.rule.run_retainsAll hP ih

end LosslessSyntax
