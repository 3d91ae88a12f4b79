import LosslessSyntax.Proofs.Bounds
import LosslessSyntax.Proofs.Execution
import LosslessSyntax.Proofs.Grammar.Sound
/-!
Progress: which rules take a token if they read, as far as it can be told from the rules and from
the token they are at. What the fragment is does not matter, so that this holds of a rule that is
called on its own.
-/
namespace LosslessSyntax

/-- Whether a nonterminal takes a token if it reads. Some do not ask which token it is, and so have
none to take at the end of file. -/
@[simp] def Nonterminal.Takes : Nonterminal → TokenKind → Prop
  | .pathSteps, _ | .parameterList, _ | .members _, _ | .statements, _ | .arms, _ | .operators _, _
  | .suffixes _, _ | .list _, _ | .more _, _ => False
  | .unary, kind | .typeNameExpression, kind | .variableDeclaration, kind | .jump, kind =>
    kind ≠ .eof
  | _, _ => True

/-- Whether a rule takes a token if it reads. A rule that gives up does not read. -/
@[simp] def Rule.Takes : Rule → TokenKind → Prop
  | .seq first next, kind => first.Takes kind ∨ next.Takes kind
  | .take _, kind => kind ≠ .eof
  | .look distance next, kind =>
    ∀ found, (distance = 0 → found = kind) → (next found).Takes kind
  | .fail _, _ => True
  | .apart rule, kind | .within _ rule, kind | .naming rule, kind => rule.Takes kind
  | .call name, kind => name.Takes kind
  | .byContext next, kind => ∀ context, (next context).Takes kind
  | .byDialect next, kind => ∀ dialect, (next dialect).Takes kind
  | .byOperand next, kind => ∀ operand, (next operand).Takes kind
  | .attempt trial next otherwise, kind =>
    (trial.Takes kind ∨ next.Takes kind) ∧ otherwise.Takes kind
  | _, _ => False

def Action.TakesAt (action : Action) (kind : TokenKind) : Prop :=
  ∀ (setting : Setting) (nodes : List Node) (cursor : Cursor),
    setting.stream.kind cursor.position = kind →
    (action setting nodes cursor).Satisfies True fun _ after => cursor.position < after.position

theorem Outcome.satisfies_of_cursor {P : Cursor → Prop} {outcome : Outcome α}
    (h : P outcome.cursor) : outcome.Satisfies True fun _ after => P after := by
  cases outcome with
  | done => exact h
  | failed => trivial

/-- One of two actions is enough: if the first one takes no token, then the second one finds the
same. -/
theorem Action.TakesAt.sequence {first next : Action} {kind : TokenKind}
    (hfirst : first.Advances) (hnext : next.Advances)
    (h : first.TakesAt kind ∨ next.TakesAt kind) {setting : Setting} {nodes : List Node}
    {cursor : Cursor} (hkind : setting.stream.kind cursor.position = kind) :
    (first setting nodes cursor).Satisfies True fun read middle =>
      (next setting read middle).Satisfies True fun _ after =>
        cursor.position < after.position := by
  have hle := (hfirst setting nodes cursor).position_le
  have htook := fun hfirst : first.TakesAt kind => hfirst setting nodes cursor hkind
  rcases hrun : first setting nodes cursor with ⟨read, middle⟩ | ⟨diagnostic, middle⟩
  · rw [hrun] at hle htook
    rcases hle.eq_or_lt with hsame | hmoved
    · have hnext : next.TakesAt kind := h.resolve_left fun h => absurd hsame (htook h).ne
      have hmiddle : cursor.position = middle.position := hsame
      rw [Outcome.Satisfies, hmiddle]
      exact hnext setting read middle (hmiddle ▸ hkind)
    · have hlater := (hnext setting read middle).position_le
      exact Outcome.satisfies_of_cursor (hmoved.trans_le hlater)
  · trivial

theorem Rule.run_takes {expand : Nonterminal → Action} (hadvances : ∀ name, (expand name).Advances)
    {kind : TokenKind} (hexpand : ∀ name, name.Takes kind → (expand name).TakesAt kind)
    {rule : Rule} (h : rule.Takes kind) : Action.TakesAt (rule.run expand) kind := by
  intro setting nodes cursor hkind
  induction rule generalizing setting nodes cursor with
  | seq first next ihFirst ihNext =>
    have hrules : Action.TakesAt (first.run expand) kind ∨ Action.TakesAt (next.run expand) kind :=
      h.imp ihFirst ihNext
    exact satisfies_seq.mpr
      (Action.TakesAt.sequence (first.run_advances hadvances) (next.run_advances hadvances) hrules
        hkind)
  | take kind =>
    have hmoved := Cursor.advance_position_of_ne_eof (hkind ▸ h)
    exact satisfies_take.mpr (hmoved ▸ Nat.lt_succ_self _)
  | look distance next ih =>
    exact ih _ (h _ fun hdistance => by rw [hdistance]; exact hkind) setting nodes _ hkind
  | fail failure => trivial
  | apart rule ih => exact satisfies_apart.mpr (ih h setting [] cursor hkind)
  | call name => exact hexpand name h setting nodes cursor hkind
  | within context rule ih => exact ih h { setting with context } nodes cursor hkind
  | byContext next ih => exact ih _ (h _) setting nodes cursor hkind
  | byDialect next ih => exact ih _ (h _) setting nodes cursor hkind
  | byOperand next ih => exact ih _ (h _) setting nodes cursor hkind
  | attempt trial next otherwise ihTrial ihNext ihOtherwise =>
    have hrules : Action.TakesAt (trial.run expand) kind ∨ Action.TakesAt (next.run expand) kind :=
      h.1.imp ihTrial ihNext
    exact satisfies_attempt
      (Action.TakesAt.sequence (trial.run_advances hadvances) (next.run_advances hadvances) hrules
        hkind)
      fun furthest => ihOtherwise h.2 setting nodes ⟨cursor.position, furthest⟩ hkind
  | naming rule ih => exact ih h { setting with name := _ } nodes _ hkind
  | empty | label | labelInner | wrap | recover => exact h.elim

namespace Rule

variable {kind found : TokenKind} {rule next : Rule}

@[simp] theorem takes_ite {condition : Prop} [Decidable condition] :
    (if condition then rule else next).Takes kind ↔
      (condition → rule.Takes kind) ∧ (¬condition → next.Takes kind) := by
  split <;> simp [*]

@[simp] theorem takes_steps_singleton : (steps [rule]).Takes kind ↔ rule.Takes kind := Iff.rfl

@[simp] theorem takes_steps_cons {rules : List Rule} :
    (steps (rule :: next :: rules)).Takes kind ↔
      rule.Takes kind ∨ (steps (next :: rules)).Takes kind := Iff.rfl

@[simp] theorem takes_onKind {next : TokenKind → Rule} :
    (onKind next).Takes kind ↔ (next kind).Takes kind := by
  simp [onKind]

@[simp] theorem takes_ifAt {yes no : Rule} :
    (ifAt found yes no).Takes kind ↔
      (kind = found → yes.Takes found) ∧ (kind ≠ found → no.Takes kind) := by
  rw [ifAt, takes_onKind, takes_ite]
  exact and_congr_left' (forall_congr' fun h => by rw [h])

@[simp] theorem takes_expectAs {what : String} :
    (expectAs found what).Takes kind ↔ (kind = found → found ≠ .eof) := by
  simp [expectAs]

@[simp] theorem takes_expect : (expect found).Takes kind ↔ (kind = found → found ≠ .eof) :=
  takes_expectAs

@[simp] theorem takes_optional :
    (Rule.optional found).Takes kind ↔ kind = found ∧ found ≠ .eof := by
  simp only [Rule.optional, takes_ifAt, Takes, imp_false, ne_eq, not_not]
  tauto

@[simp] theorem takes_inField {field : Field} :
    (inField field rule).Takes kind ↔ rule.Takes kind := by
  simp [inField]

@[simp] theorem takes_child {name : Nonterminal} : (child name).Takes kind ↔ name.Takes kind :=
  Iff.rfl

end Rule

open Rule

namespace Grammar

variable {kind : TokenKind} {form : Nonterminal}

theorem takes_of_itemForm? (h : itemForm? kind = some form) : form.Takes kind := by
  revert h
  fun_cases itemForm? kind <;> rintro ⟨⟩ <;> trivial

theorem takes_of_statementForm? (h : statementForm? kind = some form) : form.Takes kind := by
  revert h
  fun_cases statementForm? kind <;> rintro ⟨⟩ <;> simp

theorem takes_of_leadingForm? (h : leadingForm? kind = some form) : form.Takes kind := by
  revert h
  fun_cases leadingForm? kind <;> rintro ⟨⟩ <;> simp
  case case15 hleading =>
    rintro rfl
    contradiction

theorem takes_of_typeForm? (h : typeForm? kind = some form) : form.Takes kind := by
  revert h
  fun_cases typeForm? kind <;> rintro ⟨⟩ <;> trivial

theorem takes_of_operation? {operation : BindingPower → Rule}
    (h : operation? kind = some operation) (power : BindingPower) :
    (operation power).Takes kind := by
  have heof : kind ≠ .eof := by
    rintro rfl
    contradiction
  cases operatesBy_of_operation? h with
  | assignment | plusEquals => simp [assignment]
  | cast => simp [cast]
  | range => simp [range]
  | member => simp [member]
  | optionalChain => simp [optionalChain]
  | index => simp [index]
  | functionCall => simp [functionCall]
  | matchExpression => simp [matchExpression]
  | binary => simp [binary, heof]

theorem takes_of_suffix? {suffix : Rule} (h : suffix? kind = some suffix) : suffix.Takes kind := by
  revert h
  fun_cases suffix? kind <;> rintro ⟨⟩ <;> simp

end Grammar

theorem Nonterminal.takes_rule {name : Nonterminal} {kind : TokenKind} (h : name.Takes kind) :
    name.rule.Takes kind := by
  cases name with
  | item =>
    simp [rule, Grammar.item, Grammar.directive, -Nonterminal.Takes]
    rcases hform : Grammar.itemForm? kind with _ | form
    · simp
    · exact .inr (.inr (Grammar.takes_of_itemForm? hform))
  | functionDefinition => simp [rule, Grammar.functionDefinition]
  | structDefinition => simp [rule, Grammar.structDefinition]
  | enumDefinition => simp [rule, Grammar.enumDefinition]
  | constDeclaration => simp [rule, Grammar.constDeclaration]
  | importDeclaration => simp [rule, Grammar.importDeclaration]
  | testBlock =>
    simp [rule, Grammar.testBlock]
    rintro (_ | operand) <;> simp
  | block => simp [rule, Grammar.block]
  | statement =>
    simp [rule, Grammar.statement, -Nonterminal.Takes]
    rcases hform : Grammar.statementForm? kind with _ | form
    · simp [Grammar.ifStartsExpression, Grammar.innerExpression]
    · exact Grammar.takes_of_statementForm? hform
  | variableDeclaration => simp_all [rule, Grammar.variableDeclaration]
  | returnStatement => simp [rule, Grammar.returnStatement]
  | deferStatement => simp [rule, Grammar.deferStatement]
  | ifStatement => simp [rule, Grammar.ifStatement]
  | forStatement => simp [rule, Grammar.forStatement]
  | loopStatement => simp [rule, Grammar.loopStatement]
  | jump => simpa [rule, Grammar.jump] using h
  | pattern =>
    simp [rule, Grammar.pattern]
    split <;> simp [Grammar.variantPattern, Grammar.bareVariant]
  | expression power =>
    simp [rule, Grammar.expression, -Nonterminal.Takes]
    rcases hform : Grammar.leadingForm? kind with _ | form
    · trivial
    · exact .inl (Grammar.takes_of_leadingForm? hform)
  | primary =>
    simp [rule, Grammar.primary]
    split <;> simp [Grammar.structLiteral]
  | typeNameExpression =>
    simp_all [rule, Grammar.typeNameExpression]
    intro _ _ following
    -- if the trial fails, the name is taken again without what follows it
    split <;> simp [h, Grammar.structLiteral]
  | anonymousStruct => simp [rule, Grammar.anonymousStruct]
  | grouping => simp [rule, Grammar.grouping]
  | arrayLiteral => simp [rule, Grammar.arrayLiteral]
  | unary => simp_all [rule, Grammar.unary]
  | conditional => simp [rule, Grammar.conditional]
  | ifExpression => simp [rule, Grammar.ifExpression]
  | lambda => simp [rule, Grammar.lambda]
  | type power =>
    simp [rule, Grammar.type, -Nonterminal.Takes]
    rcases hform : Grammar.typeForm? kind with _ | form
    · trivial
    · exact .inl (Grammar.takes_of_typeForm? hform)
  | primitiveType => simp [rule, Grammar.primitiveType]
  | genericTypeParameter => simp [rule, Grammar.genericTypeParameter]
  | referenceType => simp [rule, Grammar.referenceType]
  | arrayType => simp [rule, Grammar.arrayType]
  | functionType => simp [rule, Grammar.functionType]
  | tupleType => simp [rule, Grammar.tupleType]
  | namedType => simp [rule, Grammar.namedType]
  | genericArguments => simp [rule, Grammar.genericArguments]
  | pathSteps | parameterList | members | statements | operators | arms | suffixes | list | more =>
    exact h.elim

namespace Nonterminal

theorem run_takes (depth : Nat) {name : Nonterminal} {kind : TokenKind} (h : name.Takes kind) :
    Action.TakesAt (name.run depth) kind := by
  induction depth generalizing name with
  | zero => exact fun _ _ _ _ => trivial
  | succ depth ih => exact Rule.run_takes (run_advances depth) (fun _ => ih) (takes_rule h)

theorem action_takes {name : Nonterminal} {kind : TokenKind} (h : name.Takes kind) :
    name.action.TakesAt kind :=
  fun setting nodes cursor => run_takes (callDepth setting.stream) h setting nodes cursor

end Nonterminal

end LosslessSyntax
