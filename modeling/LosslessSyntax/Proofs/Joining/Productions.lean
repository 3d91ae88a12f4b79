import LosslessSyntax.Proofs.Dialects.Productions
import LosslessSyntax.Proofs.Joining.Lockstep
/-!
The productions where a stream ends and where it goes on with an item.
-/
namespace LosslessSyntax

open Node (Solid)
open Rule

namespace Nonterminal

open Grammar

variable {old new : Nat → TokenKind} {goal : Nat → Prop} {stuck : Prop} {position : Nat}
  {rule yes no : Rule}

attribute [local simp] Recovery.itemStarts

theorem persists_ifStartsExpression (hyes : yes.Persists old new goal stuck position)
    (hno : no.Persists old new goal stuck position) (hend : no = .empty ∨ no.Founders stuck) :
    (ifStartsExpression yes no).Persists old new goal stuck position := by
  have hstarts : ∀ kind ∈ .eof :: Recovery.itemStarts,
      startsExpression .canonical kind = false := by decide
  have heof := hstarts .eof List.mem_cons_self
  refine ⟨fun _ => ?_, fun _ _ hzero => by omega, fun _ _ _ => ?_, fun _ hnew _ => ?_⟩
  · simp [hyes, hno]
  · simp [heof, hno]
  · rcases hend with rfl | hfounders
    · have hgoal : goal position := hno
      have hitem := hstarts _ (List.mem_cons_of_mem _ hnew.1)
      rw [Nat.add_zero] at hitem
      left
      simp [heof, hitem, hgoal]
    · right; left
      simp [heof, hfounders]

/-- A named function has no parenthesis behind its `fn`, so it is no type of a result. -/
theorem persists_ifStartsReturnType (hyes : yes.Persists old new goal stuck position)
    (hgoal : goal position) :
    (ifStartsReturnType yes .empty).Persists old new goal stuck position := by
  have htypes : ∀ kind ∈ Recovery.itemStarts, kind ≠ .fnKeyword → typeForm? kind = none := by decide
  refine ⟨fun hne => ?_, fun _ _ hzero => by omega, fun _ _ _ => hgoal, fun _ hnew _ => ?_⟩
  · rw [Nat.add_zero] at hne ⊢
    simp [hyes, hgoal, hne]
  · rw [Nat.add_zero] at hnew ⊢
    refine .inl ⟨trivial, ?_, hgoal⟩
    by_cases hfunction : new position = .fnKeyword
    · simp [hfunction, hnew.2 hfunction]
    · simp [hfunction, htypes _ hnew.1 hfunction]

theorem persists_unlessBodyEnds (hgoal : goal position) (hstuck : stuck)
    (hrule : rule.Persists old new goal stuck position) :
    (unlessBodyEnds rule).Persists old new goal stuck position := by
  refine persists_onKind_of_founders (fun hne => ?_) hgoal hstuck
  split
  · exact hgoal
  · exact hgoal
  · refine persists_onKind_of_ne_eof hne ?_
    simp +contextual [hgoal, hrule]

theorem persists_operationOf {kind : TokenKind} {own : BindingPower}
    {operation : BindingPower → Rule} (hown : Precedence.power? kind = some own)
    (hoperation : operation? kind = some operation) (hgoal : ∀ later, goal later) :
    (operation own).Persists old new goal stuck position := by
  cases operatesBy_of_operation? hoperation with
  | assignment => simp [assignment, defaultExpression, hgoal]
  | plusEquals => simp [assignment, defaultExpression, hgoal]
  | cast => simp [Grammar.cast, typeField, anyType, hgoal]
  | range =>
    obtain rfl := Option.some.inj hown
    simp only [range, Persists]
    intro operand
    split
    · trivial
    have hpower : BindingPower.range < .member := by decide
    refine fun _ => persists_ifStartsExpression ?_ (hgoal _) (.inl rfl)
    simp [hpower, hgoal]
  | member =>
    simp only [member, persists_steps_cons, Persists]
    refine fun _ => persists_onKind_of_founders (fun _ => ?_) trivial trivial
    split <;> simp [hgoal]
  | optionalChain =>
    simp only [optionalChain, persists_steps_cons, Persists]
    refine fun _ => persists_onKind_of_founders (fun _ => ?_) trivial trivial
    split <;> simp [hgoal]
  | index => simp +contextual [index, innerExpression, hgoal]
  | functionCall => simp +contextual [functionCall, hgoal]
  | matchExpression => simp +contextual [matchExpression, hgoal]
  | binary known associativity =>
    simp [binary, Precedence.lt_member known associativity hown, hgoal]

/-- Behind a directive there is a function, and no item starts with one. -/
theorem persists_modifiers {form : Rule} (h : old position ≠ .eof)
    (hform : ∀ later, form.Persists old new (fun _ => True) False later)
    (hend : form.Founders False) :
    (steps [optional .pubKeyword, directive, form]).Persists old new (fun _ => True) False
      position := by
  have hdirective (later : Nat) :
      (steps [directive, form]).Persists old new (fun _ => True) False later := by
    refine persists_onKind_of_founders (fun hne => ?_) (hform later) hend
    rw [persists_ite]
    refine ⟨fun _ => ⟨fun _ => ?_, ?_, fun _ _ _ => trivial, fun _ _ _ => .inr (.inr ⟨_, rfl⟩)⟩,
      fun _ => hform later⟩
    · simp [hform]
    · rintro _ before hbefore
      obtain rfl : before = 0 := by omega
      exact hne
  refine persists_onKind_of_ne_eof h ?_
  rw [persists_ite]
  exact ⟨fun _ _ => hdirective _, fun _ => hdirective _⟩

/-- Only expressions and type names are joined by more than what they look at. -/
theorem persists_rule (name : Nonterminal) (hname : name ≠ .typeNameExpression)
    (hpower : ∀ power, name ≠ .expression power) (h : name.IsJoinable (old position)) :
    name.rule.Persists old new (fun _ => True) name.EndsEarly position := by
  cases name with
  | item =>
    refine persists_modifiers h (fun later => ?_) trivial
    refine persists_onKind_of_founders (fun _ => ?_) trivial trivial
    fun_cases itemForm? (old later) <;> simp
  | functionDefinition =>
    simp +contextual [Grammar.functionDefinition, returnType, anyType, persists_ifStartsReturnType]
  | structDefinition =>
    simp +contextual [Grammar.structDefinition, genericParameters, memberBody]
    intro _
    refine persists_onKind_of_founders (fun _ => ?_) trivial trivial
    split <;> simp +contextual
  | enumDefinition =>
    simp +contextual [Grammar.enumDefinition, genericParameters, memberBody]
  | constDeclaration =>
    simp +contextual [Grammar.constDeclaration, typeAnnotation, typeField, anyType, innerExpression]
  | importDeclaration => simp +contextual [Grammar.importDeclaration]
  | pathSteps => simp +contextual [Grammar.pathSteps]
  | testBlock =>
    simp only [Nonterminal.rule, Grammar.testBlock, Persists]
    intro operand
    split <;> simp +contextual
  | parameterList => simp +contextual [Grammar.parameterList]
  | members body =>
    refine persists_unlessBodyEnds trivial trivial ?_
    cases body
    · simp +contextual [memberOf, structField, typeField, anyType]
    · simp +contextual [memberOf, enumVariant, variantParameters, variantValue, innerExpression]
  | block => simp +contextual [Grammar.block]
  | statements => exact persists_unlessBodyEnds trivial trivial (by simp)
  | statement =>
    have hexpression : (ifStartsExpression (steps [innerExpression, .wrap .expressionStatement])
        (.fail .noRuleApplies)).Persists old new (fun _ => True) False position :=
      persists_ifStartsExpression (by simp [innerExpression]) (by simp) (.inr (by simp))
    refine persists_onKind_of_founders (fun _ => ?_) hexpression ?_
    · fun_cases statementForm? (old position)
      case case10 => exact hexpression
      all_goals simp
    · have heof : startsExpression .canonical .eof = false := by decide
      simp [statementForm?, ifStartsExpression, heof]
  | variableDeclaration =>
    refine persists_onKind_of_founders (fun _ => ?_) ?_ ?_
    · simp +contextual [typeField, typeAnnotation, anyType,
        innerExpression, Dialect.allowsUninitializedLet]
    · simp +contextual [typeField, typeAnnotation, anyType,
        innerExpression, Dialect.allowsUninitializedLet]
    · simp
  | returnStatement =>
    simp only [Nonterminal.rule, Grammar.returnStatement, persists_steps_cons]
    rw [persists_expect (by decide)]
    intro _
    exact persists_ifStartsExpression (by simp [innerExpression]) trivial (.inl rfl)
  | deferStatement => simp +contextual [Grammar.deferStatement, innerExpression]
  | ifStatement => simp [Grammar.ifStatement]
  | loopStatement => simp +contextual [Grammar.loopStatement]
  | jump => simp [Grammar.jump]
  | forStatement => simp +contextual [Grammar.forStatement, forHeader, defaultExpression]
  | pattern =>
    refine persists_onKind_of_founders (fun _ => ?_) trivial trivial
    split <;> simp +contextual [variantPattern, bareVariant, variantPayload, *]
  | operators power =>
    have hstarts : ∀ kind ∈ .eof :: Recovery.itemStarts, Precedence.power? kind = none := by decide
    have heof := hstarts .eof List.mem_cons_self
    refine persists_onKind_of_same (fun _ => ?_) (fun kind hkind => ?_) (by simp [heof])
    · generalize hkind : old position = kind
      rcases hown : Precedence.power? kind with _ | own
      · trivial
      obtain ⟨operation, hoperation⟩ :=
        Option.isSome_iff_exists.mp (Grammar.operation?_isSome kind (by simp [hown]))
      have hnext : (steps [operation own, .call (.operators power)]).Persists old new
          (fun _ => True) False position :=
        persists_operationOf hown hoperation fun _ => ⟨h, by simp, fun _ => trivial, id⟩
      simp only [hoperation]
      split
      · trivial
      split
      · simp [*]
      · exact hnext
    · simp only [heof, hstarts kind (List.mem_cons_of_mem _ hkind)]
  | primary =>
    refine persists_onKind_of_founders (fun _ => ?_) trivial trivial
    split <;> simp +contextual [Dialect.allowsIdentifierStructNames]
  | unary =>
    have hunary : BindingPower.unary < .member := by decide
    simp +contextual [Grammar.unary, hunary]
  | conditional =>
    have halternative (context : Context) (goal : Nat → Prop) (hgoal : ∀ later, goal later)
        (later : Nat) : (alternative context).Persists old new goal False later := by
      refine persists_onKind_of_same (fun _ => ?_) (by simp) (by simp [innerExpression, hgoal])
      split
      · simp [hgoal]
      · simp [innerExpression, hgoal]
      · simp [innerExpression, hgoal]
    simp +contextual [Grammar.conditional, defaultExpression, branch, innerExpression, halternative]
  | ifExpression => simp [Grammar.ifExpression]
  | anonymousStruct => simp +contextual [Grammar.anonymousStruct, structFields]
  | grouping => simp +contextual [Grammar.grouping, defaultExpression]
  | arrayLiteral => simp +contextual [Grammar.arrayLiteral, defaultExpression]
  | lambda => simp [Grammar.lambda, Dialect.allowsLambdas]
  | arms =>
    refine persists_onKind_of_founders (fun _ => ?_) trivial trivial
    split <;> simp +contextual [matchArm, branch, innerExpression]
  | type power =>
    refine persists_onKind_of_founders (fun _ => ?_) trivial trivial
    fun_cases typeForm? (old position) <;> simp
  | suffixes power =>
    have hstarts : ∀ kind ∈ Recovery.itemStarts, suffixPower? kind = none := by decide
    refine persists_onKind_of_same (fun _ => ?_) (fun kind hkind => ?_) trivial
    · generalize hkind : old position = kind
      fun_cases suffixPower? kind <;> simp +contextual [hkind, suffix?]
    · rw [hstarts kind hkind]
      rfl
  | primitiveType => simp +contextual [Grammar.primitiveType]
  | genericTypeParameter => simp +contextual [Grammar.genericTypeParameter]
  | referenceType => simp +contextual [Grammar.referenceType]
  | arrayType => simp +contextual [Grammar.arrayType, typeField, anyType, innerExpression]
  | functionType => simp +contextual [Grammar.functionType, anyType]
  | tupleType => simp +contextual [Grammar.tupleType]
  | namedType => simp +contextual [Grammar.namedType]
  | genericArguments => simp +contextual [Grammar.genericArguments]
  | list listing =>
    refine persists_onKind_of_founders (fun _ => ?_) (by simp) (by simp)
    simp
    cases listing <;> simp +contextual [element, parameter, fieldEntry, signatureType, typeField,
      anyType, defaultExpression]
  | more continuation =>
    cases continuation <;>
      simp +contextual [Grammar.more, continuationElement, defaultExpression, continuationClosing]
  | typeNameExpression => contradiction
  | expression power => exact absurd rfl (hpower power)

section Runs

variable {old new : TokenStream} {expand : Nonterminal → Action} {setting : Setting}
  {nodes : List Node} {cursor cursor' : Cursor}

theorem follows_typeNameExpression (hgoes : old.GoesOn new) (hcalls : AllPersist old new expand)
    (hstream : setting.stream = old) (hdialect : setting.dialect = .canonical)
    (hposition : cursor'.position = cursor.position)
    (hkind : old.kind cursor.position = .typeIdentifier) :
    (typeNameExpression.rule.run expand setting nodes cursor).Follows Solid (· ≤ old.body.size)
      (typeNameExpression.EndsAt old.kind)
      (typeNameExpression.rule.run expand (setting.on new) nodes cursor') := by
  have hlt : cursor.position < old.body.size := TokenStream.lt_of_kind_ne_eof (by simp [hkind])
  have hrule (rule : Rule) (here here' : Cursor) (hhere : here.position = cursor.position)
      (hhere' : here'.position = cursor.position)
      (h : rule.Persists old.kind new.kind (fun _ => True) False cursor.position) :
      (rule.run expand setting nodes here).Follows Solid (· ≤ old.body.size)
        (typeNameExpression.EndsAt old.kind) (rule.run expand (setting.on new) nodes here') := by
    rw [← hhere] at h hlt
    exact (h.outcome hgoes hcalls hstream hdialect (hhere'.trans hhere.symm) hlt.le).imp
      (fun _ => And.left) fun _ _ hends => hends.2.elim
  have htake := hrule (.take none)
  by_cases hcontext : setting.context = .condition
  · simp only [Nonterminal.rule, Grammar.typeNameExpression, Rule.run, Setting.on_context, hcontext,
      if_true]
    exact htake cursor cursor' rfl hposition (by simp)
  simp only [Nonterminal.rule, Grammar.typeNameExpression, Rule.run, Setting.on_context, hcontext,
    if_false, hposition, hstream, Setting.on_stream]
  by_cases heof : old.kind (cursor.position + 1) = .eof
  · have hsize := eq_size_of_kind_eq_eof hgoes.ends hlt.le heof
      (by rintro _ ⟨⟩; simp [hkind])
    have hstarts := (hsize ▸ hgoes.starts : StartsItem new.kind (cursor.position + 1)).1
    simp only [heof]
    split
    · simp_all
    · simp_all
    · exact htake _ _ rfl hposition (by simp)
  rw [hgoes.kind_of_kind_ne_eof heof]
  split
  · exact hrule _ _ _ rfl hposition (by simp +contextual [structLiteral, structFields])
  · rename_i hparen
    -- the trial ends at the brace, and if it has none to end at, then a type name is called
    have htrial : (steps [inField .name (.take none), child .genericArguments,
        ifAt .openCurly .empty (.fail .unexpected)]).Persists old.kind new.kind (fun _ => True)
          False cursor.position := by simp
    have hnext : ∀ position, (steps [structFields, .wrap .structLiteral]).Persists old.kind new.kind
        (fun _ => True) False position := by simp +contextual [structFields]
    refine follows_attempt (Rule.run_retainsAll Node.solid_lingers hcalls.retains _)
      (Outcome.Follows.imp (htrial.outcome hgoes hcalls hstream hdialect hposition hlt.le)
        (fun _ => id) fun _ _ hends => hends.2) ?_ ?_
    · intro after here here' hhere hgoal
      exact ((hnext _).outcome hgoes hcalls hstream hdialect hhere hgoal.1).imp (fun _ => And.left)
        fun _ _ hends => hends.2.elim
    · subst hstream
      intro furthest _
      refine ⟨?_, ?_⟩
      · rwa [Cursor.advance_position_of_ne_eof (by simp [hkind])]
      · rw [List.getLast?_concat, Option.map_some]
        exact congrArg some (Node.kind_ofTokenAs_get hkind)
  · exact htake _ _ rfl hposition (by simp)

theorem endsAt_of_leadingForm? (kinds : Nat → TokenKind) {kind : TokenKind} {form : Nonterminal}
    (h : leadingForm? kind = some form) :
    form.IsJoinable kind ∧ ∀ after position, form.EndsAt kinds after position →
      kinds position = .openParen ∧ after.getLast?.map (·.kind) = some .typeIdentifier := by
  revert h
  fun_cases leadingForm? kind <;> rintro ⟨⟩ <;> refine ⟨by simp, fun after position => ?_⟩ <;>
    simp +contextual [EndsAt]

theorem follows_expression {power : BindingPower} (hgoes : old.GoesOn new)
    (hcalls : AllPersist old new expand) (hstops : Stops old expand)
    (hstream : setting.stream = old) (hdialect : setting.dialect = .canonical)
    (hposition : cursor'.position = cursor.position) (hbound : cursor.position ≤ old.body.size)
    (hpower : power < .member) :
    ((expression power).rule.run expand setting nodes cursor).Follows Solid (· ≤ old.body.size)
      ((expression power).EndsAt old.kind)
      ((expression power).rule.run expand (setting.on new) nodes cursor') := by
  simp only [Nonterminal.rule, Grammar.expression, Rule.onKind, Rule.run, Nat.add_zero, hposition,
    hstream, Setting.on_stream]
  by_cases heof : old.kind cursor.position = .eof
  · have hform : leadingForm? .eof = none := by decide
    simp only [heof, hform]
    trivial
  rw [hgoes.kind_of_kind_ne_eof heof]
  split
  · rename_i form hform
    obtain ⟨hjoinable, hends⟩ := endsAt_of_leadingForm? old.kind hform
    refine follows_seq (Rule.run_retainsAll Node.solid_lingers hcalls.retains _)
      ((hcalls.follows form setting nodes (cursor.examine old cursor.position)
        (cursor'.examine new cursor.position) hstream hdialect hposition hbound hjoinable).imp
        (fun _ => id) hends) ?_ ?_
    · exact fun after here here' hhere hle =>
        hcalls.follows (.operators power) setting after here here' hstream hdialect hhere hle hpower
    · exact fun after here hstuck => Outcome.Satisfies.imp
        (hstops.refuses power setting after here hstream hstuck.1 hpower hstuck.2) False.elim
  · trivial

theorem allPersist_run (hgoes : old.GoesOn new) (depth : Nat) : AllPersist old new (run depth) := by
  induction depth with
  | zero => exact ⟨fun _ _ _ _ => trivial, fun _ _ _ _ _ _ _ _ _ _ => trivial⟩
  | succ depth ih =>
    refine ⟨Nonterminal.run_retainsAll Node.solid_lingers _, ?_⟩
    intro name setting nodes cursor cursor' hstream hdialect hposition hbound hjoinable
    by_cases hname : name = .typeNameExpression
    · subst hname
      exact follows_typeNameExpression hgoes ih hstream hdialect hposition hjoinable
    by_cases hexpression : ∃ power, name = .expression power
    · obtain ⟨power, rfl⟩ := hexpression
      exact follows_expression hgoes ih (stops_run old depth) hstream hdialect hposition hbound
        hjoinable
    have hpersists : name.rule.Persists old.kind new.kind (fun _ => True) name.EndsEarly
        cursor.position :=
      name.persists_rule hname (fun power h => hexpression ⟨power, h⟩) hjoinable
    refine (hpersists.outcome hgoes ih hstream hdialect hposition hbound).imp (fun _ => And.left) ?_
    intro after position hends
    cases name <;> first | exact hends | contradiction

end Runs

end Nonterminal

end LosslessSyntax
