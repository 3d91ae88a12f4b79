import LosslessSyntax.Proofs.Dialects.Clean
/-!
Lockstep: a rule makes the same of the same tokens in both dialects, or else the run in the
canonical dialect gets stuck at a token that nothing can follow. Where a run may get stuck and what
is behind it then is a matter of the rule and the kinds of the tokens, and the main statements carry
it over to the runs.
-/
namespace LosslessSyntax

open Node (Throughout Clean)

def Setting.extended (setting : Setting) : Setting := { setting with dialect := .extended }

namespace Nonterminal

variable (kinds : Nat → TokenKind)

/-- Where the canonical dialect can be at the end of a nonterminal, if the extended one is not there
with the same nodes: at a brace that it has no use for, at the `fn` behind a `return`, or at the
parenthesis behind a type name. -/
def SticksAt (name : Nonterminal) (position : Nat) : Prop :=
  match name with
  | .expression _ | .operators _ | .primary | .unary | .ifExpression | .conditional | .list _
  | .more _ | .item | .constDeclaration | .variableDeclaration | .deferStatement | .ifStatement =>
    kinds position = .openCurly
  | .returnStatement | .statement => kinds position = .openCurly ∨ kinds position = .fnKeyword
  | .statements => kinds position = .fnKeyword
  | .typeNameExpression => kinds position = .openParen
  | _ => False

/-- A nonterminal that is called where the canonical dialect got stuck fails or makes errors, or it
reads nothing and leaves it to what follows. -/
def BalksAt (stuck : Nat → Prop) (position : Nat) : Nonterminal → Prop
  | .arms | .members _ | .pattern | .item => kinds position = .openCurly
  | .statement => kinds position = .openCurly ∨ kinds position = .fnKeyword
  | .statements =>
    kinds position = .openCurly ∨ kinds position = .fnKeyword ∧ stuck position
  | .more _ => kinds position = .openCurly ∧ stuck position
  | _ => False

def IsProper (kind : TokenKind) : Nonterminal → Prop
  | .expression power | .operators power => power < .member
  | .typeNameExpression => kind = .typeIdentifier
  | _ => True

end Nonterminal

/-- From a position on, where the canonical dialect got stuck, a rule fails or makes errors, or it
stays stuck in the way that is given. -/
def Rule.Balks (kinds : Nat → TokenKind) : Rule → (Nat → Prop) → Nat → Prop
  | .empty, stuck, position => stuck position
  | .seq first next, stuck, position => first.Balks kinds (next.Balks kinds stuck) position
  | .take _, stuck, position => kinds position ≠ .eof ∧ stuck (position + 1)
  | .look distance next, stuck, position =>
    (next (kinds (position + distance))).Balks kinds stuck position
  | .fail _, _, _ => True
  | .label _, stuck, position | .labelInner _, stuck, position | .wrap _, stuck, position =>
    stuck position
  | .apart rule, stuck, position => rule.Balks kinds stuck position
  | .call name, stuck, position => name.BalksAt kinds stuck position
  | .within _ rule, stuck, position => rule.Balks kinds stuck position
  | .byContext next, stuck, position => ∀ context, (next context).Balks kinds stuck position
  | .byDialect next, stuck, position => (next .canonical).Balks kinds stuck position
  | .byOperand next, stuck, position => ∀ operand, (next operand).Balks kinds stuck position
  | .recover _ rule, stuck, position => rule.Balks kinds stuck position
  | .attempt trial next otherwise, stuck, position =>
    trial.Balks kinds (next.Balks kinds stuck) position ∧ otherwise.Balks kinds stuck position
  | .naming rule, stuck, position => rule.Balks kinds stuck position

/-- From a position on a rule does the same in both dialects, and then the goal holds where they end,
or the canonical dialect gets stuck in the way that is given. -/
def Rule.Mirrors (kinds : Nat → TokenKind) : Rule → (Nat → Prop) → (Nat → Prop) → Nat → Prop
  | .empty, goal, _, position => goal position
  | .seq first next, goal, stuck, position =>
    first.Mirrors kinds (next.Mirrors kinds goal stuck) (next.Balks kinds stuck) position
  | .take _, goal, _, position =>
    (kinds position = .eof → goal position) ∧ (kinds position ≠ .eof → goal (position + 1))
  | .look distance next, goal, stuck, position =>
    (next (kinds (position + distance))).Mirrors kinds goal stuck position
  | .fail _, _, _, _ => True
  | .label _, goal, _, position | .labelInner _, goal, _, position | .wrap _, goal, _, position =>
    goal position
  | .apart rule, goal, stuck, position => rule.Mirrors kinds goal stuck position
  | .call name, goal, stuck, position =>
    name.IsProper (kinds position) ∧ (∀ later, goal later) ∧
      ∀ later, name.SticksAt kinds later → stuck later
  | .within _ rule, goal, stuck, position => rule.Mirrors kinds goal stuck position
  | .byContext next, goal, stuck, position =>
    ∀ context, (next context).Mirrors kinds goal stuck position
  | .byDialect next, goal, stuck, position =>
    next .extended = next .canonical ∧ (next .canonical).Mirrors kinds goal stuck position ∨
      (next .canonical).Balks kinds stuck position
  | .byOperand next, goal, stuck, position =>
    ∀ operand, (next operand).Mirrors kinds goal stuck position
  | .recover _ rule, goal, stuck, position => rule.Mirrors kinds goal stuck position
  | .attempt _ _ _, _, _, _ => False
  | .naming rule, goal, stuck, position => rule.Mirrors kinds goal stuck position

namespace Rule

variable {kinds : Nat → TokenKind} {goal stuck : Nat → Prop} {position : Nat}
  {rule next yes no : Rule} {rules : List Rule} {kind : TokenKind} {field : Field}

attribute [simp] Balks Mirrors Nonterminal.SticksAt Nonterminal.BalksAt Nonterminal.IsProper

@[simp] theorem balks_ite {c : Prop} [Decidable c] :
    (if c then yes else no).Balks kinds stuck position ↔
      (c → yes.Balks kinds stuck position) ∧ (¬c → no.Balks kinds stuck position) := by
  split <;> simp [*]

@[simp] theorem balks_steps_singleton :
    (steps [rule]).Balks kinds stuck position ↔ rule.Balks kinds stuck position := Iff.rfl

@[simp] theorem balks_steps_cons :
    (steps (rule :: next :: rules)).Balks kinds stuck position ↔
      rule.Balks kinds ((steps (next :: rules)).Balks kinds stuck) position := Iff.rfl

@[simp] theorem balks_onKind {next : TokenKind → Rule} :
    (onKind next).Balks kinds stuck position ↔
      (next (kinds position)).Balks kinds stuck position := Iff.rfl

@[simp] theorem balks_ifAt :
    (ifAt kind yes no).Balks kinds stuck position ↔
      (kinds position = kind → yes.Balks kinds stuck position) ∧
        (kinds position ≠ kind → no.Balks kinds stuck position) := by
  simp [ifAt]

@[simp] theorem balks_inField :
    (inField field rule).Balks kinds stuck position ↔ rule.Balks kinds stuck position := Iff.rfl

@[simp] theorem balks_child {name : Nonterminal} :
    (child name).Balks kinds stuck position ↔ name.BalksAt kinds stuck position := Iff.rfl

@[simp] theorem balks_expectAs {what : String} :
    (expectAs kind what).Balks kinds stuck position ↔
      (kinds position = kind → kind ≠ .eof ∧ stuck (position + 1)) := by
  simp +contextual [expectAs]

@[simp] theorem balks_expect :
    (expect kind).Balks kinds stuck position ↔
      (kinds position = kind → kind ≠ .eof ∧ stuck (position + 1)) := balks_expectAs

@[simp] theorem balks_optional :
    (Rule.optional kind).Balks kinds stuck position ↔
      (kinds position = kind → kind ≠ .eof ∧ stuck (position + 1)) ∧
        (kinds position ≠ kind → stuck position) := by
  simp +contextual [Rule.optional]

@[simp] theorem mirrors_ite {c : Prop} [Decidable c] :
    (if c then yes else no).Mirrors kinds goal stuck position ↔
      (c → yes.Mirrors kinds goal stuck position) ∧
        (¬c → no.Mirrors kinds goal stuck position) := by
  split <;> simp [*]

@[simp] theorem mirrors_steps_singleton :
    (steps [rule]).Mirrors kinds goal stuck position ↔ rule.Mirrors kinds goal stuck position :=
  Iff.rfl

@[simp] theorem mirrors_steps_cons :
    (steps (rule :: next :: rules)).Mirrors kinds goal stuck position ↔
      rule.Mirrors kinds ((steps (next :: rules)).Mirrors kinds goal stuck)
        ((steps (next :: rules)).Balks kinds stuck) position := Iff.rfl

@[simp] theorem mirrors_onKind {next : TokenKind → Rule} :
    (onKind next).Mirrors kinds goal stuck position ↔
      (next (kinds position)).Mirrors kinds goal stuck position := Iff.rfl

@[simp] theorem mirrors_ifAt :
    (ifAt kind yes no).Mirrors kinds goal stuck position ↔
      (kinds position = kind → yes.Mirrors kinds goal stuck position) ∧
        (kinds position ≠ kind → no.Mirrors kinds goal stuck position) := by
  simp [ifAt]

@[simp] theorem mirrors_inField :
    (inField field rule).Mirrors kinds goal stuck position ↔
      rule.Mirrors kinds goal stuck position := Iff.rfl

@[simp] theorem mirrors_child {name : Nonterminal} :
    (child name).Mirrors kinds goal stuck position ↔ name.IsProper (kinds position) ∧
      (∀ later, goal later) ∧ ∀ later, name.SticksAt kinds later → stuck later := Iff.rfl

@[simp] theorem mirrors_expectAs {what : String} :
    (expectAs kind what).Mirrors kinds goal stuck position ↔
      (kinds position = kind → (kind = .eof → goal position) ∧
        (kind ≠ .eof → goal (position + 1))) := by
  simp +contextual [expectAs]

@[simp] theorem mirrors_expect :
    (expect kind).Mirrors kinds goal stuck position ↔
      (kinds position = kind → (kind = .eof → goal position) ∧
        (kind ≠ .eof → goal (position + 1))) := mirrors_expectAs

@[simp] theorem mirrors_optional :
    (Rule.optional kind).Mirrors kinds goal stuck position ↔
      (kinds position = kind → (kind = .eof → goal position) ∧
        (kind ≠ .eof → goal (position + 1))) ∧ (kinds position ≠ kind → goal position) := by
  simp +contextual [Rule.optional]

theorem mirrors_ifStartsExpression
    (hfunction : kinds position = .fnKeyword → no.Balks kinds stuck position)
    (hyes : yes.Mirrors kinds goal stuck position) (hno : no.Mirrors kinds goal stuck position) :
    (Grammar.ifStartsExpression yes no).Mirrors kinds goal stuck position := by
  simp only [Grammar.ifStartsExpression, mirrors_onKind, Mirrors]
  by_cases hkind : kinds position = .fnKeyword
  · right
    simpa [hkind, Grammar.startsExpression, Dialect.allowsLambdas] using hfunction hkind
  · left
    simp only [Grammar.startsExpression, hkind, if_false, true_and, mirrors_ite]
    exact ⟨fun _ => hyes, fun _ => hno⟩

end Rule

namespace Outcome

def Balks (stuck : List Node → Nat → Prop) (outcome : Outcome (List Node)) : Prop :=
  outcome.Satisfies True fun after cursor => Throughout Clean after → stuck after cursor.position

def Mirrors (goal : Nat → Prop) (stuck : List Node → Nat → Prop)
    (canonical extended : Outcome (List Node)) : Prop :=
  canonical.Satisfies True fun after cursor => Throughout Clean after →
    (∃ cursor', extended = .done after cursor' ∧ cursor'.position = cursor.position ∧
      goal cursor.position) ∨ stuck after cursor.position

variable {goal goal' : Nat → Prop} {stuck stuck' : List Node → Nat → Prop}
  {canonical extended : Outcome (List Node)}

theorem balks_of_not_clean (h : canonical.Satisfies True fun after _ => ¬Throughout Clean after) :
    canonical.Balks stuck :=
  Satisfies.imp h fun hnot hclean => absurd hclean hnot

theorem Mirrors.imp (h : canonical.Mirrors goal stuck extended)
    (hgoal : ∀ position, goal position → goal' position)
    (hstuck : ∀ after position, stuck after position → stuck' after position) :
    canonical.Mirrors goal' stuck' extended :=
  Follows.imp h hgoal hstuck

end Outcome

namespace Nonterminal

def AllBalk (stream : TokenStream) (expand : Nonterminal → Action) : Prop :=
  ∀ (name : Nonterminal) (setting : Setting) (nodes : List Node) (cursor : Cursor)
    (stuck : Nat → Prop), setting.stream = stream → setting.dialect = .canonical →
    name.BalksAt stream.kind stuck cursor.position →
    (expand name setting nodes cursor).Balks fun _ => stuck

def Sticks (kinds : Nat → TokenKind) (context : Context) (name : Nonterminal) (after : List Node)
    (position : Nat) : Prop :=
  name.SticksAt kinds position ∧
    match name with
    | .expression _ | .operators _ | .primary | .unary | .ifExpression =>
      Node.lastEndsInName (context == .condition) after
    | .conditional => context = .statement ∨ ∀ inCondition, Node.lastEndsInName inCondition after
    | .typeNameExpression => (after.getLast?.map (·.kind)) = some .typeIdentifier
    | _ => True

def AllMirror (stream : TokenStream) (expand : Nonterminal → Action) : Prop :=
  ∀ (name : Nonterminal) (setting : Setting) (nodes : List Node) (cursor cursor' : Cursor),
    setting.stream = stream → setting.dialect = .canonical →
    cursor'.position = cursor.position → name.IsProper (stream.kind cursor.position) →
    (expand name setting nodes cursor).Mirrors (fun _ => True)
      (name.Sticks stream.kind setting.context) (expand name setting.extended nodes cursor')

end Nonterminal

namespace Rule

variable {expand : Nonterminal → Action} {setting : Setting} {nodes : List Node}
  {cursor cursor' : Cursor} {goal stuck : Nat → Prop} {rule first next trial otherwise : Rule}

theorem Balks.outcome (hretains : ∀ name, (expand name).Retains)
    (hcalls : Nonterminal.AllBalk setting.stream expand) (hdialect : setting.dialect = .canonical)
    (h : rule.Balks setting.stream.kind stuck cursor.position) :
    (rule.run expand setting nodes cursor).Balks fun _ => stuck := by
  induction rule generalizing setting nodes cursor stuck with
  | empty => exact fun _ => h
  | seq first next ihFirst ihNext =>
    exact staysStuck_seq (next.run_retains hretains) (ihFirst hcalls hdialect h) fun _ _ hnext =>
      ihNext hcalls hdialect hnext
  | take kind =>
    intro _
    rw [Cursor.advance_position_of_ne_eof h.1]
    exact h.2
  | look distance next ih => exact ih _ hcalls hdialect h
  | fail failure => trivial
  | label field => exact fun _ => h
  | labelInner field => exact fun _ => h
  | wrap kind =>
    rw [Outcome.Balks, satisfies_wrap]
    intro _
    split <;> exact h
  | apart rule ih => exact staysStuck_apart (ih hcalls hdialect h)
  | call name => exact hcalls name setting nodes cursor stuck rfl hdialect h
  | within context rule ih => exact ih hcalls hdialect h
  | byContext next ih => exact ih _ hcalls hdialect (h _)
  | byDialect next ih => exact ih _ hcalls hdialect (by rw [hdialect]; exact h)
  | byOperand next ih => exact ih _ hcalls hdialect (h _)
  | recover recovery rule ih =>
    exact staysStuck_recover (fun _ => Clean.kind_ne) (ih hcalls hdialect h)
  | attempt trial next otherwise ihTrial ihNext ihOtherwise =>
    refine satisfies_attempt ?_ fun _ => ihOtherwise hcalls hdialect h.2
    exact satisfies_seq.mp <| staysStuck_seq (next.run_retains hretains)
      (ihTrial hcalls hdialect h.1) fun _ _ hnext => ihNext hcalls hdialect hnext
  | naming rule ih => exact ih hcalls hdialect h

section

variable {stuck stuck' : List Node → Nat → Prop} {goal goal' : Nat → Prop}
  (hretains : ∀ name, (expand name).Retains)

include hretains

theorem mirrors_seq
    (hfirst : (first.run expand setting nodes cursor).Mirrors goal stuck
      (first.run expand setting.extended nodes cursor'))
    (hnext : ∀ (after : List Node) (cursor cursor' : Cursor), cursor'.position = cursor.position →
      goal cursor.position → (next.run expand setting after cursor).Mirrors goal' stuck'
        (next.run expand setting.extended after cursor'))
    (hstuck : ∀ (after : List Node) (cursor : Cursor), stuck after cursor.position →
      (next.run expand setting after cursor).Balks stuck') :
    ((first.seq next).run expand setting nodes cursor).Mirrors goal' stuck'
      ((first.seq next).run expand setting.extended nodes cursor') :=
  follows_seq (next.run_retains hretains) hfirst hnext hstuck

theorem mirrors_attempt
    (htrial : (trial.run expand setting nodes cursor).Mirrors goal (fun _ _ => False)
      (trial.run expand setting.extended nodes cursor'))
    (hnext : ∀ (after : List Node) (cursor cursor' : Cursor), cursor'.position = cursor.position →
      goal cursor.position → (next.run expand setting after cursor).Mirrors goal' stuck
        (next.run expand setting.extended after cursor'))
    (hotherwise : ∀ furthest,
      (otherwise.run expand setting nodes ⟨cursor.position, furthest⟩).Balks stuck) :
    ((Rule.attempt trial next otherwise).run expand setting nodes cursor).Mirrors goal' stuck
      ((Rule.attempt trial next otherwise).run expand setting.extended nodes cursor') :=
  follows_attempt (next.run_retains hretains) htrial hnext hotherwise

end

theorem mirrors_apart {stuck : List Node → Nat → Prop}
    (h : (rule.run expand setting [] cursor).Mirrors goal (fun more => stuck (nodes ++ more))
      (rule.run expand setting.extended [] cursor')) :
    ((Rule.apart rule).run expand setting nodes cursor).Mirrors goal stuck
      ((Rule.apart rule).run expand setting.extended nodes cursor') :=
  follows_apart h

theorem Mirrors.outcome (hretains : ∀ name, (expand name).Retains)
    (hbalk : Nonterminal.AllBalk setting.stream expand)
    (hcalls : Nonterminal.AllMirror setting.stream expand) (hdialect : setting.dialect = .canonical)
    (hposition : cursor'.position = cursor.position)
    (h : rule.Mirrors setting.stream.kind goal stuck cursor.position) :
    (rule.run expand setting nodes cursor).Mirrors goal (fun _ => stuck)
      (rule.run expand setting.extended nodes cursor') := by
  induction rule generalizing setting nodes cursor cursor' goal stuck with
  | empty => exact fun _ => .inl ⟨cursor', rfl, hposition, h⟩
  | seq first next ihFirst ihNext =>
    refine mirrors_seq hretains (ihFirst hbalk hcalls hdialect hposition h) ?_ ?_
    · exact fun after cursor cursor' hposition hnext =>
        ihNext hbalk hcalls hdialect hposition hnext
    · exact fun after cursor hnext => hnext.outcome hretains hbalk hdialect
  | take kind =>
    intro _
    refine .inl ⟨cursor'.advance setting.stream, ?_, ?_, ?_⟩
    · change Outcome.done (nodes ++ [.ofTokenAs kind (setting.stream.get cursor'.position)]) _ = _
      rw [hposition]
      rfl
    · simp only [Cursor.advance, hposition]
      split <;> simp [hposition]
    · simp only [Cursor.advance]
      split
      · exact h.1 ‹_›
      · exact h.2 ‹_›
  | look distance next ih =>
    simp only [run, hposition]
    exact ih _ hbalk hcalls hdialect hposition h
  | fail failure => trivial
  | label field => exact fun _ => .inl ⟨cursor', rfl, hposition, h⟩
  | labelInner field => exact fun _ => .inl ⟨cursor', rfl, hposition, h⟩
  | wrap kind =>
    rw [Outcome.Mirrors, satisfies_wrap]
    intro _
    refine .inl ⟨if nodes.isEmpty then cursor'.examineHere setting.stream else cursor', ?_, ?_, ?_⟩
    · simp only [run, hposition]
      rfl
    · split <;> exact hposition
    · split <;> exact h
  | apart rule ih => exact mirrors_apart (ih hbalk hcalls hdialect hposition h)
  | call name =>
    exact (hcalls name setting nodes cursor cursor' rfl hdialect hposition h.1).imp
      (fun later _ => h.2.1 later) fun after later hsticks => h.2.2 later hsticks.1
  | within context rule ih =>
    exact ih hbalk hcalls hdialect hposition h
  | byContext next ih => exact ih _ hbalk hcalls hdialect hposition (h _)
  | byDialect next ih =>
    simp only [run, hdialect]
    -- where the dialects part ways, the canonical one has to get stuck
    rcases h with ⟨hsame, h⟩ | h
    · rw [show next setting.extended.dialect = next .canonical from hsame]
      exact ih _ hbalk hcalls hdialect hposition h
    · exact Outcome.StaysStuck.follows (h.outcome hretains hbalk hdialect)
  | byOperand next ih => exact ih _ hbalk hcalls hdialect hposition (h _)
  | recover recovery rule ih =>
    exact follows_recover (fun _ => Clean.kind_ne) (ih hbalk hcalls hdialect hposition h)
  | attempt trial next otherwise => exact h.elim
  | naming rule ih =>
    simp only [run]
    rw [show setting.extended.stream.get cursor'.position = setting.stream.get cursor.position from
      congrArg setting.stream.get hposition]
    exact ih hbalk hcalls hdialect hposition h

end Rule

end LosslessSyntax
