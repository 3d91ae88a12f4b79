import LosslessSyntax.Proofs.Errors.Traces
/-!
The productions of the grammar are traceable: all recovery is from a token on that is then taken,
but for a list of parameters, which is read behind a `fn` or a name.
-/
namespace LosslessSyntax

namespace Rule

variable {kinds : Nat → TokenKind} {goal : Bool → Nat → Prop} {solid : Bool} {position : Nat}
  {rule next yes no : Rule} {rules : List Rule} {kind : TokenKind} {field : Field}

attribute [simp] Traceable

@[simp] theorem traceable_ite {c : Prop} [Decidable c] :
    (if c then yes else no).Traceable kinds goal solid position ↔
      (c → yes.Traceable kinds goal solid position) ∧
        (¬c → no.Traceable kinds goal solid position) := by
  split <;> simp [*]

@[simp] theorem traceable_steps_singleton :
    (steps [rule]).Traceable kinds goal solid position ↔
      rule.Traceable kinds goal solid position := Iff.rfl

@[simp] theorem traceable_steps_cons :
    (steps (rule :: next :: rules)).Traceable kinds goal solid position ↔
      rule.Traceable kinds ((steps (next :: rules)).Traceable kinds goal) solid position := Iff.rfl

@[simp] theorem traceable_onKind {next : TokenKind → Rule} :
    (onKind next).Traceable kinds goal solid position ↔
      (next (kinds position)).Traceable kinds goal solid position := Iff.rfl

@[simp] theorem traceable_ifAt :
    (ifAt kind yes no).Traceable kinds goal solid position ↔
      (kinds position = kind → yes.Traceable kinds goal solid position) ∧
        (kinds position ≠ kind → no.Traceable kinds goal solid position) := by
  simp [ifAt]

@[simp] theorem traceable_inField :
    (inField field rule).Traceable kinds goal solid position ↔
      rule.Traceable kinds goal solid position := Iff.rfl

@[simp] theorem traceable_child {name : Nonterminal} :
    (child name).Traceable kinds goal solid position ↔
      (name = .parameterList → solid) ∧ ∀ solid later, goal solid later := Iff.rfl

@[simp] theorem traceable_expectAs {what : String} :
    (expectAs kind what).Traceable kinds goal solid position ↔
      (kinds position = kind → (kind = .eof → goal solid position) ∧
        (kind ≠ .eof → goal true (position + 1))) := by
  simp +contextual [expectAs]

@[simp] theorem traceable_expect :
    (expect kind).Traceable kinds goal solid position ↔
      (kinds position = kind → (kind = .eof → goal solid position) ∧
        (kind ≠ .eof → goal true (position + 1))) := traceable_expectAs

@[simp] theorem traceable_optional :
    (Rule.optional kind).Traceable kinds goal solid position ↔
      (kinds position = kind → (kind = .eof → goal solid position) ∧
        (kind ≠ .eof → goal true (position + 1))) ∧
      (kinds position ≠ kind → goal solid position) := by
  simp +contextual [Rule.optional]

end Rule

namespace Grammar

variable {kinds : Nat → TokenKind} {goal : Bool → Nat → Prop} {solid : Bool} {position : Nat}
  {rule : Rule}

section Always

variable (h : ∀ solid later, goal solid later)

include h

@[simp] theorem traceable_anyType : anyType.Traceable kinds goal solid position := by
  simp [anyType, h]

@[simp] theorem traceable_typeField : typeField.Traceable kinds goal solid position := by
  simp [typeField, h]

@[simp] theorem traceable_innerExpression :
    innerExpression.Traceable kinds goal solid position := by
  simp [innerExpression, h]

@[simp] theorem traceable_defaultExpression :
    defaultExpression.Traceable kinds goal solid position := by
  simp [defaultExpression, h]

@[simp] theorem traceable_branch : branch.Traceable kinds goal solid position := by
  simp [branch, h]

@[simp] theorem traceable_returnType : returnType.Traceable kinds goal solid position := by
  simp [returnType, ifStartsReturnType, h]

@[simp] theorem traceable_typeAnnotation :
    typeAnnotation.Traceable kinds goal solid position := by
  unfold typeAnnotation
  simp [h]

@[simp] theorem traceable_structFields : structFields.Traceable kinds goal solid position := by
  simp [structFields, h]

@[simp] theorem traceable_structLiteral : structLiteral.Traceable kinds goal solid position := by
  simp [structLiteral, h]

@[simp] theorem traceable_alternative (context : Context) :
    (alternative context).Traceable kinds goal solid position := by
  simp [alternative]
  split <;> simp [h]

@[simp] theorem traceable_directive : directive.Traceable kinds goal solid position := by
  simp [directive, h]

end Always

@[simp] theorem traceable_ifStartsExpression {yes no : Rule} :
    (ifStartsExpression yes no).Traceable kinds goal solid position ↔ ∀ dialect,
      (startsExpression dialect (kinds position) → yes.Traceable kinds goal solid position) ∧
        (startsExpression dialect (kinds position) = false →
          no.Traceable kinds goal solid position) := by
  simp [ifStartsExpression]

theorem traceable_unlessBodyEnds
    (h : kinds position ≠ .eof → rule.Traceable kinds (fun _ _ => True) solid position) :
    (unlessBodyEnds rule).Traceable kinds (fun _ _ => True) solid position := by
  simp only [unlessBodyEnds, Rule.traceable_onKind]
  split
  · trivial
  · trivial
  · rename_i heof
    simp [ifItemStarts, h heof]

theorem traceable_operation {kind : TokenKind} {own : BindingPower}
    {operation : BindingPower → Rule} (h : operation? kind = some operation)
    (hgoal : ∀ solid later, goal solid later) :
    (operation own).Traceable kinds goal solid position := by
  cases operatesBy_of_operation? h with
  | assignment => simp [assignment, hgoal]
  | plusEquals => simp [assignment, hgoal]
  | cast => simp [Grammar.cast, hgoal]
  | range => simp [range, hgoal]
  | member =>
    simp [member]
    refine ⟨fun _ => ?_, fun _ => ?_⟩ <;> split <;> simp [hgoal]
  | optionalChain =>
    simp [optionalChain]
    refine ⟨fun _ => ?_, fun _ => ?_⟩ <;> split <;> simp [hgoal]
  | index => simp [index, hgoal]
  | functionCall => simp [functionCall, hgoal]
  | matchExpression => simp [matchExpression, hgoal]
  | binary => simp [binary, hgoal]

end Grammar

namespace Nonterminal

open Grammar

variable {kinds : Nat → TokenKind} {solid : Bool} {position : Nat}

theorem traceable_rule (name : Nonterminal) (h : name = .parameterList → solid) :
    name.rule.Traceable kinds (fun _ _ => True) solid position := by
  cases name with
  | item =>
    refine Rule.traceable_optional.mpr
      ⟨fun _ => ⟨fun heof => TokenKind.noConfusion heof, fun _ => ?_⟩, fun _ => ?_⟩
    all_goals
      refine traceable_directive fun solid later => ?_
      rw [Rule.traceable_steps_singleton, Rule.traceable_onKind]
      fun_cases itemForm? (kinds later) <;> simp
  | functionDefinition => simp [rule, Grammar.functionDefinition]
  | structDefinition =>
    simp [rule, Grammar.structDefinition, genericParameters, memberBody]
    intro _
    split <;> simp
  | enumDefinition => simp [rule, Grammar.enumDefinition, genericParameters, memberBody]
  | constDeclaration => simp [rule, Grammar.constDeclaration]
  | importDeclaration => simp [rule, Grammar.importDeclaration]
  | pathSteps => simp [rule, Grammar.pathSteps]
  | testBlock =>
    simp [rule, Grammar.testBlock]
    intro operand
    split <;> simp
  | parameterList =>
    simp [rule, Grammar.parameterList, Recovery.parameters, Recovery.itemStarts, h]
  | members body =>
    refine traceable_unlessBodyEnds fun heof => ?_
    cases body
    · simp [heof, Recovery.member, Recovery.itemStarts, memberOf, structField]
    · simp [heof, Recovery.member, Recovery.itemStarts, memberOf, enumVariant, variantParameters,
        variantValue]
  | block => simp [rule, Grammar.block]
  | statements =>
    refine traceable_unlessBodyEnds fun heof => ?_
    simp [heof, Recovery.statement]
  | statement =>
    simp [rule, Grammar.statement]
    fun_cases statementForm? (kinds position) <;> simp
  | variableDeclaration =>
    simp [rule, Grammar.variableDeclaration]
    split <;> simp
  | returnStatement => simp [rule, Grammar.returnStatement]
  | deferStatement => simp [rule, Grammar.deferStatement]
  | ifStatement => simp [rule, Grammar.ifStatement]
  | forStatement => simp [rule, Grammar.forStatement, forHeader]
  | loopStatement => simp [rule, Grammar.loopStatement]
  | jump => simp [rule, Grammar.jump]
  | pattern =>
    simp [rule, Grammar.pattern]
    split <;> simp [variantPattern, bareVariant, variantPayload]
  | expression power =>
    simp [rule, Grammar.expression]
    fun_cases leadingForm? (kinds position) <;> simp
  | operators power =>
    simp only [rule, Grammar.operators, Rule.traceable_onKind]
    split
    · simp
      split
      · rename_i hoperation
        simp [traceable_operation hoperation]
      · simp [Rule.withoutHandler]
    · trivial
  | primary =>
    simp [rule, Grammar.primary]
    split <;> simp
  | typeNameExpression =>
    simp [rule, Grammar.typeNameExpression]
    intro _ _
    split <;> simp
  | anonymousStruct => simp [rule, Grammar.anonymousStruct]
  | grouping => simp [rule, Grammar.grouping]
  | arrayLiteral => simp [rule, Grammar.arrayLiteral]
  | unary => simp [rule, Grammar.unary]
  | conditional =>
    have hbranch (context : Context) (kind : NodeKind) (hkind : kind ≠ .error) (solid : Bool)
        (later : Nat) : (Rule.steps [.inField .consequence branch,
          .ifAt .elseKeyword
            (.steps [.take none, .inField .alternative (alternative context)]) .empty,
          .wrap kind]).Traceable kinds (fun _ _ => True) solid later := by
      simp [hkind]
    simp [rule, Grammar.conditional]
    intro context _
    split <;> simp [hbranch]
  | ifExpression => simp [rule, Grammar.ifExpression]
  | lambda => simp [rule, Grammar.lambda]
  | arms =>
    simp only [rule, Grammar.arms, Rule.traceable_onKind]
    split
    · trivial
    · trivial
    · rename_i heof
      have hne : kinds position ≠ .eof := heof
      simp [hne, Recovery.arm, matchArm]
  | type power =>
    simp [rule, Grammar.type]
    fun_cases typeForm? (kinds position) <;> simp
  | suffixes power =>
    simp [rule, Grammar.suffixes]
    fun_cases suffixPower? (kinds position) <;> simp [suffix?]
  | primitiveType => simp [rule, Grammar.primitiveType]
  | genericTypeParameter => simp [rule, Grammar.genericTypeParameter]
  | referenceType => simp [rule, Grammar.referenceType]
  | arrayType => simp [rule, Grammar.arrayType]
  | functionType => simp [rule, Grammar.functionType]
  | tupleType => simp [rule, Grammar.tupleType]
  | namedType => simp [rule, Grammar.namedType]
  | genericArguments => simp [rule, Grammar.genericArguments]
  | list listing =>
    simp [rule, Grammar.list]
    cases listing <;> simp [element, parameter, fieldEntry, signatureType]
  | more continuation =>
    simp [rule, Grammar.more]
    cases continuation <;> simp [continuationElement]

variable {stream : TokenStream} (hordered : stream.Ordered)

include hordered

theorem allTrace_run (depth : Nat) : AllTrace (run depth) stream := by
  induction depth with
  | zero => exact fun _ _ _ _ _ _ _ _ _ _ hinternal => absurd hinternal (by decide)
  | succ depth ih =>
    intro name setting nodes cursor start entry solid hstream hsolid hnodes
    exact (name.traceable_rule hsolid).traces hordered (run_advances depth) ih hstream hnodes

theorem allTrace_action : AllTrace action stream :=
  fun name setting => allTrace_run hordered (callDepth setting.stream) name setting

end Nonterminal

theorem Setting.Items.traced {stream : TokenStream} {dialect : Dialect} {start : Nat}
    {items : List (Node × ItemExtent)} (hordered : stream.Ordered)
    (h : (Setting.top stream dialect).Items start items) (hstart : start ≤ stream.body.size)
    (entry : Bool) :
    ∃ stop solid, Traced stream start entry stop solid (items.map (·.1)) := by
  induction h generalizing entry with
  | finish => exact ⟨_, _, .nil hstart⟩
  | @item start item after items kind read tail ih =>
    obtain ⟨hrun, hextent⟩ := parseItem_eq_done_iff.mp read
    have htraceable : Rule.itemOrError.Traceable stream.kind (fun _ _ => True) entry start :=
      ⟨.inr ⟨rfl, kind⟩, by simp [Recovery.item, Recovery.itemStarts], by simp⟩
    have htraces : (Rule.itemOrError.run Nonterminal.action (top stream dialect) []
        (Cursor.resetFurthest ⟨start, start⟩)).Traces stream start entry fun _ _ => True :=
      htraceable.traces hordered Nonterminal.action_advances
        (Nonterminal.allTrace_action hordered) rfl (.nil hstart)
    rw [hrun] at htraces
    obtain ⟨solid, hitem, -⟩ := htraces
    rw [hextent] at ih
    obtain ⟨stop, last, htail⟩ := ih hitem.bound solid
    exact ⟨stop, last, hitem.append htail⟩

end LosslessSyntax
