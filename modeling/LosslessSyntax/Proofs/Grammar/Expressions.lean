import LosslessSyntax.Proofs.Grammar.Lists
/-!
The contracts of expressions hold.
-/
namespace LosslessSyntax

open Rule

variable {dialect : Dialect}

theorem Precedence.mem_of_isLeading {kind : TokenKind} (h : isLeading kind) :
    kind ∈ [.dash, .bang, .ampersand] :=
  (by decide : ∀ kind, isLeading kind → kind ∈ [.dash, .bang, .ampersand]) kind h

namespace Grammar

variable {rank : Nat} {context : Context} {goal : Situation → Prop} {shape : Shape}

theorem leadsTo_structRest {ahead : List TokenKind} {moved : Bool}
    (hempty : NodeKind.structLiteral.accepts dialect
      (shape ++ [Form.word .openCurly, Form.word .closeCurly]))
    (hfilled : NodeKind.structLiteral.accepts dialect
      (shape ++ (Form.word .openCurly :: Listing.fieldEntries.filled ++ [Form.word .closeCurly])))
    (hgoal : ∀ ahead, goal ⟨[Form.bare [.structLiteral]], ahead, true⟩) :
    (steps [structFields, .wrap .structLiteral]).LeadsTo rank dialect context goal
      ⟨shape, ahead, moved⟩ := by
  refine leadsTo_expect (by decide) fun ahead => ?_
  refine Nonterminal.leadsTo_list (by decide) (fun ahead => ⟨?_, hgoal ahead⟩)
    fun ahead => ⟨?_, hgoal ahead⟩
  · rw [List.append_assoc]
    exact hempty
  · rw [List.append_assoc, List.append_assoc]
    exact hfilled

theorem leadsTo_structLiteral {found : TokenKind} {ahead : List TokenKind} {moved : Bool}
    (hfound : found ≠ .eof)
    (hempty : NodeKind.structLiteral.accepts dialect
      [Form.fill .name [.ofToken found], Form.word .openCurly, Form.word .closeCurly])
    (hfilled : NodeKind.structLiteral.accepts dialect
      (Form.fill .name [.ofToken found] :: Form.word .openCurly :: Listing.fieldEntries.filled ++
        [Form.word .closeCurly]))
    (hgoal : ∀ ahead, goal ⟨[Form.bare [.structLiteral]], ahead, true⟩) :
    structLiteral.LeadsTo rank dialect context goal ⟨[], found :: ahead, moved⟩ := by
  simp only [structLiteral, leadsTo_steps_cons, leadsTo_inField, leadsTo_take, leadsTo_label,
    List.nil_append, Shape.last?_singleton, Option.some.injEq, Prod.mk.injEq]
  exact ⟨hfound, _, _, ⟨rfl, rfl⟩, leadsTo_structRest hempty hfilled hgoal⟩

theorem leadsTo_returnType
    (hbare : ∀ ahead, goal ⟨shape, ahead, true⟩)
    (htype : goal ⟨shape ++ [Form.fill .returnType NodeKind.types], [], true⟩) :
    returnType.LeadsTo rank dialect context goal ⟨shape, [], true⟩ := by
  have htyped (ahead : List TokenKind) : (inField .returnType anyType).LeadsTo rank dialect context
      goal ⟨shape, ahead, true⟩ := by
    simp [anyType]
    exact htype
  simp only [returnType, ifStartsReturnType, leadsTo_ifAt_nil, leadsTo_onKind_cons, leadsTo_ite,
    leadsTo_look_one, leadsTo_empty]
  exact ⟨hbare _, fun found _ => ⟨fun _ following => ⟨fun _ => htyped _, fun _ => hbare _⟩,
    fun _ => ⟨fun _ => htyped _, fun _ => hbare _⟩⟩⟩

theorem leadsTo_alternative
    (hblock : goal ⟨shape ++ [Form.fill .alternative [.block]], [], true⟩)
    (hexpression : goal ⟨shape ++ [Form.fill .alternative NodeKind.expressions], [], true⟩)
    (hstatement : context = .statement →
      goal ⟨shape ++ [Form.fill .alternative [.ifStatement]], [], true⟩) :
    (inField .alternative (alternative context)).LeadsTo rank dialect context goal
      ⟨shape, [], true⟩ := by
  simp [alternative, innerExpression]
  intro kind
  split
  · simp
    exact hblock
  · simp
    exact ⟨hstatement, fun _ => hexpression⟩
  · simp
    exact hexpression

end Grammar

namespace Nonterminal

theorem sound_expression (power : BindingPower) : (expression power).Sound dialect := by
  rintro context situation -
  simp only [rule, Grammar.expression, enter, before?, Option.getD, remembers, Bool.false_eq_true,
    if_false, leadsTo_onKind_nil]
  intro kind
  fun_cases Grammar.leadingForm? kind
  case case15 hleading =>
    simp
    exact ⟨hleading, rfl⟩
  case case16 => simp
  all_goals simp
  all_goals rfl

theorem sound_primary : primary.Sound dialect := by
  rintro context situation -
  simp [Grammar.primary]
  intro kind
  split
  case h_1 =>
    simp
    refine ⟨fun hdialect following => ⟨fun _ => ⟨fun _ => ?_, fun _ => ?_⟩, fun _ => ?_⟩,
      fun _ => ?_⟩
    · exact Situation.refines_of_within rfl id
    · obtain rfl : dialect = .extended := by
        simpa [Dialect.allowsIdentifierStructNames] using hdialect
      exact Grammar.leadsTo_structLiteral (by decide) rfl rfl
        fun ahead => Situation.refines_of_within rfl id
    · exact Situation.refines_of_within rfl id
    · exact Situation.refines_of_within rfl id
  case h_9 => simp
  all_goals
    simp
    exact Situation.refines_of_within rfl id

theorem sound_typeNameExpression : typeNameExpression.Sound dialect := by
  rintro context situation hexpects
  have hstruct (ahead : List TokenKind) : Situation.Refines
      ⟨[Form.bare [.structLiteral]], ahead, true⟩
      ⟨[Form.bare [.typeIdentifier, .structLiteral]], [], true⟩ :=
    Situation.refines_of_within rfl id
  rcases hahead : situation.ahead with _ | ⟨kind, ahead⟩
  · simp [hahead] at hexpects
  simp [hahead, Grammar.typeNameExpression] at hexpects ⊢
  subst hexpects
  refine ⟨fun _ => ⟨by decide, Situation.refines_of_within rfl id⟩, fun _ following => ?_⟩
  split
  case h_1 =>
    exact Grammar.leadsTo_structLiteral (by decide) (by cases dialect <;> rfl)
      (by cases dialect <;> rfl) hstruct
  case h_2 =>
    simp only [leadsTo_attempt]
    constructor
    · have hempty : NodeKind.structLiteral.accepts dialect
          ([Form.fill .name [.typeIdentifier], Form.bare [.genericArguments]] ++
            [Form.word .openCurly, Form.word .closeCurly]) := by
        cases dialect <;> rfl
      have hfilled : NodeKind.structLiteral.accepts dialect
          ([Form.fill .name [.typeIdentifier], Form.bare [.genericArguments]] ++
            (Form.word .openCurly :: Listing.fieldEntries.filled ++ [Form.word .closeCurly])) := by
        cases dialect <;> rfl
      simp
      exact leadsTo_steps_cons.mp (Grammar.leadsTo_structRest hempty hfilled hstruct)
    · simp
      exact Situation.refines_of_within rfl id
  case h_3 =>
    simp
    exact Situation.refines_of_within rfl id

theorem sound_anonymousStruct : anonymousStruct.Sound dialect := by
  rintro context situation -
  simp [Grammar.anonymousStruct, Grammar.structFields, Listing.filled]
  exact ⟨rfl, rfl⟩

theorem sound_grouping : grouping.Sound dialect := by
  rintro context situation -
  simp [Grammar.grouping, Grammar.defaultExpression, Continuation.filled]
  exact ⟨⟨rfl, Situation.refines_of_within rfl id⟩,
    fun _ _ _ => ⟨rfl, Situation.refines_of_within rfl id⟩⟩

theorem sound_arrayLiteral : arrayLiteral.Sound dialect := by
  rintro context situation -
  simp [Grammar.arrayLiteral, Grammar.defaultExpression, Continuation.filled]
  exact ⟨rfl, fun _ _ => ⟨rfl, fun _ _ => ⟨fun _ => rfl, fun _ _ => rfl⟩⟩⟩

theorem sound_unary : unary.Sound dialect := by
  rintro context situation hexpects
  rcases hahead : situation.ahead with _ | ⟨kind, ahead⟩
  · simp [hahead] at hexpects
  simp [hahead, Grammar.unary] at hexpects ⊢
  have hkind := Precedence.mem_of_isLeading hexpects
  simp only [List.mem_cons, List.not_mem_nil, or_false] at hkind
  rcases hkind with rfl | rfl | rfl
  all_goals exact ⟨by decide, rfl⟩

theorem sound_conditional : conditional.Sound dialect := by
  rintro context situation -
  by_cases hcontext : context = .statement
  · subst hcontext
    simp [Grammar.conditional, Grammar.defaultExpression, Grammar.branch, Grammar.innerExpression]
    refine ⟨⟨⟨?_, fun _ _ => rfl⟩, fun _ _ => ⟨?_, fun _ _ => rfl⟩⟩,
      ⟨?_, fun _ _ => rfl⟩, fun _ _ => ⟨?_, fun _ _ => rfl⟩⟩
    all_goals
      exact Grammar.leadsTo_alternative ⟨rfl, .refl _⟩ ⟨rfl, .refl _⟩ fun _ => ⟨rfl, .refl _⟩
  · simp [hcontext, Grammar.conditional, Grammar.defaultExpression, Grammar.branch,
      Grammar.innerExpression]
    refine ⟨⟨⟨?_, fun _ _ => rfl⟩, fun _ _ => ⟨?_, fun _ _ => rfl⟩⟩,
      ⟨?_, fun _ _ => rfl⟩, fun _ _ => ⟨?_, fun _ _ => rfl⟩⟩
    all_goals
      exact Grammar.leadsTo_alternative ⟨rfl, .refl _⟩ ⟨rfl, .refl _⟩ fun h => absurd h hcontext

theorem sound_ifExpression : ifExpression.Sound dialect := by
  rintro context situation -
  simp [Grammar.ifExpression]

theorem sound_lambda : lambda.Sound dialect := by
  rintro context situation -
  simp [Grammar.lambda]
  intro hdialect
  obtain rfl : dialect = .extended := by simpa [Dialect.allowsLambdas] using hdialect
  refine Grammar.leadsTo_returnType (fun ahead => ?_) ?_
  · simp
    rfl
  · simp
    rfl

theorem sound_arms : arms.Sound dialect := by
  rintro context situation -
  simp [Grammar.arms, -leadsTo_steps_cons]
  intro kind
  split
  case h_3 =>
    refine leadsTo_loop (by simp) rfl (by simp) rfl ‹_› rfl ?_
    simp [Grammar.matchArm, Grammar.branch, Grammar.innerExpression, Rule.optional]
    exact ⟨⟨⟨rfl, rfl⟩, fun _ _ => ⟨rfl, rfl⟩⟩, fun _ _ => ⟨⟨rfl, rfl⟩, fun _ _ => ⟨rfl, rfl⟩⟩⟩
  all_goals exact Situation.refines_many

end Nonterminal

end LosslessSyntax
