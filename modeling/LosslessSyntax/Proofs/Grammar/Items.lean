import LosslessSyntax.Proofs.Grammar.Statements
/-!
The contracts of items hold.
-/
namespace LosslessSyntax

open Rule

variable {dialect : Dialect}

namespace Grammar

variable {rank : Nat} {context : Context} {goal : Situation → Prop} {shape : Shape}

theorem leadsTo_itemForm {kind : TokenKind} {moved : Bool}
    (hfunction : shape.within Form.functionModifiers)
    (hother : kind ≠ .fnKeyword → shape.within Form.modifiers) :
    (match itemForm? kind with
      | some form => .call form
      | none => .fail (.expected "item") : Rule).LeadsTo 1 dialect context
      (fun last => last.Refines ⟨[Form.bare NodeKind.items], [], true⟩) ⟨shape, [kind], moved⟩ := by
  have hwithin : ∀ kind ∈ NodeKind.items,
      Shape.within [Form.bare [kind]] [Form.bare NodeKind.items] := by decide
  have hitem (kind : NodeKind) (hkind : kind ∈ NodeKind.items) :
      Situation.Refines ⟨[Form.bare [kind]], [], true⟩ ⟨[Form.bare NodeKind.items], [], true⟩ :=
    Situation.refines_of_within (hwithin kind hkind) id
  fun_cases itemForm? kind
  case case1 =>
    simp
    exact ⟨hfunction, hitem _ (by decide)⟩
  case case7 => simp
  all_goals
    simp at hother ⊢
    exact ⟨hother, hitem _ (by decide)⟩

theorem leadsTo_genericParameters (ahead : List TokenKind)
    (hgoal : ∀ ahead, goal ⟨shape ++ [Form.bare [.genericParameters]], ahead, true⟩) :
    genericParameters.LeadsTo rank dialect context goal ⟨shape, ahead, true⟩ := by
  refine leadsTo_apart.mpr ?_
  refine leadsTo_expect (by decide) fun ahead => leadsTo_expect (by decide) fun ahead => ?_
  refine Nonterminal.leadsTo_more (by decide) (fun ahead => ⟨?_, hgoal ahead⟩)
    fun ahead => ⟨?_, hgoal ahead⟩
  · rfl
  · rfl

theorem leadsTo_definitionBody (body : MemberBody) {bodyKind kind : NodeKind}
    (ahead : List TokenKind) (hbody : bodyKind.accepts dialect (Form.members body.memberKind))
    (hkind : kind.accepts dialect (shape ++ [Form.fill .body [bodyKind]])) :
    (steps [inField .body (memberBody body bodyKind), .wrap kind]).LeadsTo rank dialect context
      (fun last => last.Refines ⟨[Form.bare [kind]], [], true⟩) ⟨shape, ahead, true⟩ := by
  refine leadsTo_apart.mpr (leadsTo_expect (by decide) fun ahead => ?_)
  simp
  exact ⟨hbody, hkind⟩

theorem leadsTo_memberOf (body : MemberBody) (kind : TokenKind) :
    (memberOf body).LeadsTo 0 dialect context
      (fun t => ∃ more ahead, t = ⟨more, ahead, true⟩ ∧
        Shape.within (more ++ [.many (loose [body.memberKind, .error])])
          [.many (loose [body.memberKind, .error])])
      ⟨[], [kind], false⟩ := by
  cases body with
  | struct =>
    simp [memberOf, structField, typeField, anyType, Rule.optional]
    exact fun _ => ⟨⟨rfl, rfl⟩, fun _ _ => ⟨rfl, rfl⟩⟩
  | enum =>
    simp [memberOf, enumVariant, variantParameters, variantValue, innerExpression, Rule.optional,
      Listing.filled]
    exact fun _ => ⟨⟨⟨rfl, fun _ _ => ⟨fun _ => ⟨rfl, rfl⟩, fun _ => ⟨rfl, rfl⟩⟩⟩,
      rfl, fun _ _ => ⟨fun _ => ⟨rfl, rfl⟩, fun _ => ⟨rfl, rfl⟩⟩⟩,
      fun _ _ => ⟨fun _ => ⟨⟨rfl, rfl⟩, fun _ _ => ⟨rfl, rfl⟩⟩,
        fun _ => ⟨fun _ => ⟨rfl, rfl⟩, fun _ => ⟨rfl, rfl⟩⟩⟩⟩

theorem leadsTo_memberOf_function (body : MemberBody) (following : TokenKind) {goal : Situation → Prop} :
    (memberOf body).LeadsTo 0 dialect context goal ⟨[], [.fnKeyword, following], false⟩ := by
  cases body with
  | struct => simp [memberOf, structField]
  | enum => simp [memberOf, enumVariant]

end Grammar

namespace Nonterminal

theorem sound_item : item.Sound dialect := by
  rintro context situation -
  simp [Grammar.item, Grammar.directive, Rule.optional]
  refine ⟨⟨?_, fun found _ => ?_⟩, fun found _ => ⟨fun _ => ?_, fun _ => ?_⟩⟩
  · exact Grammar.leadsTo_itemForm rfl fun h => absurd rfl h
  · exact Grammar.leadsTo_itemForm rfl fun _ => rfl
  · exact Grammar.leadsTo_itemForm rfl fun h => absurd rfl h
  · exact Grammar.leadsTo_itemForm rfl fun _ => rfl

theorem sound_functionDefinition : functionDefinition.Sound dialect := by
  rintro context situation -
  simp [Grammar.functionDefinition, Form.functionModifiers]
  refine Grammar.leadsTo_returnType (fun ahead => ?_) ?_
  · refine leadsTo_ifAt (fun ahead => ?_) fun ahead => ?_
    · simp
      rfl
    · simp
      rfl
  · simp
    exact ⟨rfl, fun _ _ => rfl⟩

theorem sound_structDefinition : structDefinition.Sound dialect := by
  rintro context situation -
  simp [Grammar.structDefinition, Form.modifiers]
  intro kind
  split
  case h_1 =>
    have hbare : NodeKind.structDefinition.accepts dialect
        [Form.visibility, Form.word .structKeyword, Form.fill .name [.typeIdentifier],
          Form.fill .body [.structBody]] := by
      cases dialect <;> rfl
    have hgeneric : NodeKind.structDefinition.accepts dialect
        [Form.visibility, Form.word .structKeyword, Form.fill .name [.typeIdentifier],
          Form.bare [.genericParameters], Form.fill .body [.structBody]] := by
      cases dialect <;> rfl
    simp
    exact ⟨Grammar.leadsTo_genericParameters _ fun ahead =>
        Grammar.leadsTo_definitionBody .struct ahead rfl hgeneric,
      fun _ _ => leadsTo_inField.mp (leadsTo_steps_cons.mp
        (Grammar.leadsTo_definitionBody .struct _ rfl hbare))⟩
  case h_2 =>
    simp
    intro hdialect
    obtain rfl : dialect = .extended := by
      simpa [Dialect.allowsIdentifierStructNames] using hdialect
    exact ⟨Grammar.leadsTo_genericParameters _ fun ahead =>
        Grammar.leadsTo_definitionBody .struct ahead rfl rfl,
      fun _ _ => leadsTo_inField.mp (leadsTo_steps_cons.mp
        (Grammar.leadsTo_definitionBody .struct _ rfl rfl))⟩
  case h_3 => simp

theorem sound_enumDefinition : enumDefinition.Sound dialect := by
  rintro context situation -
  simp [Grammar.enumDefinition, Form.modifiers]
  exact ⟨Grammar.leadsTo_genericParameters _ fun ahead =>
      Grammar.leadsTo_definitionBody .enum ahead rfl rfl,
    fun _ _ => leadsTo_inField.mp (leadsTo_steps_cons.mp
      (Grammar.leadsTo_definitionBody .enum _ rfl rfl))⟩

theorem sound_constDeclaration : constDeclaration.Sound dialect := by
  rintro context situation -
  simp [Grammar.constDeclaration, Form.modifiers, Grammar.typeAnnotation, Grammar.typeField,
    Grammar.anyType, Grammar.innerExpression]
  exact ⟨rfl, fun _ _ _ => rfl⟩

theorem sound_importDeclaration : importDeclaration.Sound dialect := by
  rintro context situation -
  simp [Grammar.importDeclaration, Form.modifiers]
  exact ⟨rfl, rfl⟩

theorem sound_pathSteps : pathSteps.Sound dialect := by
  rintro context situation -
  simp [Grammar.pathSteps]
  refine ⟨fun following => ⟨?_, fun _ => Situation.refines_many⟩,
    fun _ _ => Situation.refines_many⟩
  rintro rfl
  exact ⟨by decide, Situation.refines_append rfl (by simp)⟩

theorem sound_testBlock : testBlock.Sound dialect := by
  rintro context situation -
  simp only [rule, Grammar.testBlock]
  constructor
  · simp
    rfl
  · intro operand
    simp

theorem sound_parameterList : parameterList.Sound dialect := by
  rintro context situation -
  simp [Grammar.parameterList, Listing.filled]
  have hlist (moved : Bool) : Situation.Refines ⟨[Form.bare [.parameterList]], [], moved⟩
      ⟨[Form.bare [.parameterList, .error]], [], false⟩ :=
    Situation.refines_of_within rfl (by simp)
  exact ⟨⟨⟨rfl, hlist _⟩, rfl, hlist _⟩, Situation.refines_of_within rfl id⟩

theorem sound_members (body : MemberBody) : (members body).Sound dialect := by
  rintro context situation -
  simp [Grammar.members, -leadsTo_steps_cons]
  refine Grammar.leadsTo_unlessBodyEnds (fun _ => Situation.refines_many) (fun kind heof => ?_)
    fun following => ?_
  · exact leadsTo_loop (by simp) rfl (by simp) rfl heof (by cases body <;> rfl)
      (Grammar.leadsTo_memberOf body kind)
  · exact leadsTo_loop (by simp) rfl (by simp) rfl (by decide) (by cases body <;> rfl)
      (Grammar.leadsTo_memberOf_function body following)

end Nonterminal

end LosslessSyntax
