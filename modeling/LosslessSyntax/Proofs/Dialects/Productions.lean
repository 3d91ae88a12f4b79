import LosslessSyntax.Proofs.Dialects.Lockstep
/-!
The productions in both dialects.
-/
namespace LosslessSyntax

open Node (Throughout Clean)
open Rule

namespace Nonterminal

open Grammar

variable {kinds : Nat → TokenKind} {stuck : Nat → Prop} {position : Nat}

theorem balks_rule (name : Nonterminal) (h : name.BalksAt kinds stuck position) :
    name.rule.Balks kinds stuck position := by
  cases name with
  | item => simp_all [Grammar.item, directive, itemForm?]
  | arms => simp_all [Grammar.arms, matchArm]
  | members body =>
    simp only [BalksAt] at h
    cases body <;>
      simp [rule, Grammar.members, unlessBodyEnds, ifItemStarts, opensItem, h, memberOf, structField,
        enumVariant]
  | pattern => simp_all [Grammar.pattern]
  | statement =>
    have hcurly : startsExpression .canonical .openCurly = false := by decide
    have hfunction : startsExpression .canonical .fnKeyword = false := by decide
    simp only [BalksAt] at h
    rcases h with h | h <;>
      simp [rule, Grammar.statement, statementForm?, ifStartsExpression, h, hcurly, hfunction]
  | statements =>
    simp only [BalksAt] at h
    rcases h with h | ⟨h, hstuck⟩
    · simp [rule, Grammar.statements, unlessBodyEnds, ifItemStarts, opensItem, h]
    · simp [rule, Grammar.statements, unlessBodyEnds, ifItemStarts, opensItem, h, hstuck]
  | more continuation => simp_all [Grammar.more]
  | _ => exact h.elim

/-- The nonterminals that the dialects read in different ways, or behind which it matters whether a
name comes last. -/
def isDivided : Nonterminal → Bool
  | .expression _ | .operators _ | .primary | .typeNameExpression | .unary | .conditional
  | .ifExpression | .forStatement => true
  | _ => false

@[simp] theorem default_lt_member : BindingPower.default < .member := by
  decide

theorem mirrors_modifiers {goal : Nat → Prop} {form : Rule}
    (h : ∀ position, form.Mirrors kinds goal stuck position) :
    (steps [optional .pubKeyword, directive, form]).Mirrors kinds goal stuck position := by
  simp +contextual [directive, h]

theorem mirrors_unlessBodyEnds {goal : Nat → Prop} {rule : Rule} (hgoal : goal position)
    (h : rule.Mirrors kinds goal stuck position) :
    (unlessBodyEnds rule).Mirrors kinds goal stuck position := by
  simp only [unlessBodyEnds, mirrors_onKind]
  split
  · exact hgoal
  · exact hgoal
  · simp [ifItemStarts, hgoal, h]

theorem mirrors_rule (name : Nonterminal) (hname : name.isDivided = false) :
    name.rule.Mirrors kinds (fun _ => True) (name.SticksAt kinds) position := by
  cases name with
  | item =>
    refine mirrors_modifiers fun position => ?_
    simp only [mirrors_onKind]
    fun_cases itemForm? (kinds position) <;> simp
  | functionDefinition =>
    simp +contextual [Grammar.functionDefinition, returnType, ifStartsReturnType, anyType]
  | structDefinition =>
    simp +contextual [Grammar.structDefinition, genericParameters, memberBody]
    generalize hkind : kinds (position + 1) = kind
    intro _
    split <;> simp +contextual [hkind, Dialect.allowsIdentifierStructNames]
  | enumDefinition =>
    simp +contextual [Grammar.enumDefinition, genericParameters, memberBody]
  | constDeclaration =>
    simp +contextual [Grammar.constDeclaration, typeAnnotation, typeField, anyType, innerExpression]
  | importDeclaration => simp +contextual [Grammar.importDeclaration]
  | pathSteps => simp +contextual [Grammar.pathSteps]
  | testBlock =>
    simp [Grammar.testBlock]
    intro operand
    split <;> simp +contextual
  | parameterList => simp +contextual [Grammar.parameterList]
  | members body =>
    refine mirrors_unlessBodyEnds trivial ?_
    cases body
    · simp +contextual [memberOf, structField, typeField, anyType]
    · simp +contextual [memberOf, enumVariant, variantParameters, variantValue, innerExpression]
  | block => simp +contextual [Grammar.block]
  | statements =>
    refine mirrors_unlessBodyEnds trivial ?_
    simp +contextual
  | statement =>
    simp only [rule, Grammar.statement, mirrors_onKind]
    fun_cases statementForm? (kinds position)
    case case10 =>
      -- a function is no statement in the canonical dialect
      refine mirrors_ifStartsExpression ?_ ?_ ?_
      · simp
      · simp +contextual [innerExpression]
      · simp
    all_goals simp +contextual
  | variableDeclaration =>
    simp +contextual [Grammar.variableDeclaration, typeAnnotation, typeField, anyType,
      innerExpression, Dialect.allowsUninitializedLet]
  | returnStatement =>
    simp only [rule, Grammar.returnStatement, mirrors_steps_cons, mirrors_expect]
    refine fun _ => ⟨by simp, fun _ => mirrors_ifStartsExpression ?_ ?_ ?_⟩
    · simp +contextual
    · simp +contextual [innerExpression]
    · simp
  | deferStatement => simp +contextual [Grammar.deferStatement, innerExpression]
  | ifStatement => simp [Grammar.ifStatement]
  | loopStatement => simp +contextual [Grammar.loopStatement]
  | jump => simp [Grammar.jump]
  | pattern =>
    simp [Grammar.pattern]
    generalize hkind : kinds position = kind
    split <;> simp +contextual [hkind, variantPattern, bareVariant, variantPayload]
  | anonymousStruct => simp +contextual [Grammar.anonymousStruct, structFields]
  | grouping => simp +contextual [Grammar.grouping, defaultExpression]
  | arrayLiteral => simp +contextual [Grammar.arrayLiteral, defaultExpression]
  | lambda => simp [Grammar.lambda, Dialect.allowsLambdas]
  | arms =>
    simp only [rule, Grammar.arms, mirrors_onKind]
    split
    · simp
    · simp
    · simp +contextual [matchArm, branch, innerExpression]
  | type power =>
    simp [Grammar.type]
    generalize hkind : kinds position = kind
    fun_cases typeForm? kind <;> simp
  | suffixes power =>
    simp [Grammar.suffixes]
    generalize hkind : kinds position = kind
    fun_cases suffixPower? kind <;> simp +contextual [hkind, suffix?]
  | primitiveType => simp +contextual [Grammar.primitiveType]
  | genericTypeParameter => simp +contextual [Grammar.genericTypeParameter]
  | referenceType => simp +contextual [Grammar.referenceType]
  | arrayType => simp +contextual [Grammar.arrayType, typeField, anyType, innerExpression]
  | functionType => simp +contextual [Grammar.functionType, anyType]
  | tupleType => simp +contextual [Grammar.tupleType]
  | namedType => simp +contextual [Grammar.namedType]
  | genericArguments => simp +contextual [Grammar.genericArguments]
  | list listing =>
    simp [Grammar.list]
    cases listing <;> simp +contextual [element, parameter, fieldEntry, signatureType, typeField,
      anyType, defaultExpression]
  | more continuation =>
    simp [Grammar.more]
    cases continuation <;> simp +contextual [continuationElement, defaultExpression]
  | _ => contradiction

theorem allBalk_run (stream : TokenStream) (depth : Nat) : AllBalk stream (run depth) := by
  induction depth with
  | zero => exact fun _ _ _ _ _ _ _ _ => trivial
  | succ depth ih =>
    rintro name setting nodes cursor stuck rfl hdialect h
    exact (name.balks_rule h).outcome (run_retains depth) ih hdialect

structure Stops (stream : TokenStream) (expand : Nonterminal → Action) : Prop where
  retains : ∀ name, (expand name).Retains
  balks : AllBalk stream expand
  /-- A brace is no operator. -/
  rests : ∀ (power : BindingPower) (setting : Setting) (nodes : List Node) (cursor : Cursor),
    setting.stream = stream → stream.kind cursor.position = .openCurly →
    (expand (.operators power) setting nodes cursor).Satisfies True fun after later =>
      after = nodes ∧ later.position = cursor.position
  /-- A type name is nothing to call. -/
  refuses : ∀ (power : BindingPower) (setting : Setting) (nodes : List Node) (cursor : Cursor),
    setting.stream = stream → stream.kind cursor.position = .openParen → power < .member →
    nodes.getLast?.map (·.kind) = some .typeIdentifier →
    (expand (.operators power) setting nodes cursor).Satisfies True fun _ _ => False
  block : ∀ (setting : Setting) (nodes : List Node) (cursor : Cursor),
    (expand .block setting nodes cursor).Satisfies True fun after _ =>
      ∃ body : Node, after = [body] ∧ body.kind = .block

theorem stops_run (stream : TokenStream) (depth : Nat) : Stops stream (run depth) where
  retains := run_retains depth
  balks := allBalk_run stream depth
  rests power setting nodes cursor hstream hkind := by
    cases depth with
    | zero => trivial
    | succ depth =>
      subst hstream
      have hpower : Precedence.power? .openCurly = none := by decide
      simp [run, rule, Grammar.operators, hkind, hpower]
  refuses power setting nodes cursor hstream hkind hlt hlast := by
    cases depth with
    | zero => trivial
    | succ depth =>
      subst hstream
      have hpower : Precedence.power? .openParen = some .member := by decide
      have hle : ¬.member ≤ power := Nat.not_le.mpr hlt
      have hoperand : operandKind? (Operand.ofNodes nodes) = some .typeIdentifier := by
        simpa [operandKind?, Operand.ofNodes, Function.comp_def] using hlast
      simp [run, rule, Grammar.operators, hkind, hpower, hle, operation?, functionCall, hoperand,
        callTargets]
  block setting nodes cursor := by
    cases depth with
    | zero => trivial
    | succ depth =>
      simp only [run, rule, Grammar.block, satisfies_within, satisfies_steps_cons, satisfies_expect]
      refine ⟨fun _ => ?_, fun _ => trivial⟩
      refine Outcome.Satisfies.of_forall fun more after => ?_
      simp only [satisfies_steps_singleton, satisfies_wrap]
      exact ⟨fun _ => ⟨_, rfl, rfl⟩, fun _ => trivial⟩

end Nonterminal

end LosslessSyntax
