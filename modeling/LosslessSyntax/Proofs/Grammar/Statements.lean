import LosslessSyntax.Proofs.Grammar.Expressions
/-!
The contracts of blocks and statements hold.
-/
namespace LosslessSyntax

open Rule

variable {dialect : Dialect}

theorem Grammar.leadsTo_unlessBodyEnds {rank : Nat} {context : Context} {goal : Situation → Prop}
    {shape : Shape} {rest : Rule} {moved : Bool} (hend : ∀ ahead, goal ⟨shape, ahead, moved⟩)
    (hrest : ∀ kind, kind ≠ .eof →
      rest.LeadsTo rank dialect context goal ⟨shape, [kind], moved⟩)
    (hfunction : ∀ following,
      rest.LeadsTo rank dialect context goal ⟨shape, [.fnKeyword, following], moved⟩) :
    (unlessBodyEnds rest).LeadsTo rank dialect context goal ⟨shape, [], moved⟩ := by
  simp [unlessBodyEnds, ifItemStarts]
  intro kind
  split
  case h_3 _ _ heof =>
    simp
    refine ⟨fun _ => hend _, fun _ => ⟨?_, fun _ => hrest _ heof⟩⟩
    rintro rfl following
    exact ⟨fun _ => hend _, fun _ => hfunction following⟩
  all_goals exact hend _

namespace Nonterminal

theorem sound_block : block.Sound dialect := by
  rintro context situation -
  simp [Grammar.block]
  rfl

theorem sound_statements : statements.Sound dialect := by
  rintro context situation -
  simp [Grammar.statements, -leadsTo_steps_cons]
  have hloop (kind : TokenKind) (ahead : List TokenKind) (heof : kind ≠ .eof) :
      (steps [.recover .statement (.call .statement), .call .statements]).LeadsTo 4 dialect context
        (fun last => last.Refines
          ⟨situation.shape ++ [.many (loose (.error :: NodeKind.statements))], [], false⟩)
        ⟨situation.shape, kind :: ahead, false⟩ := by
    refine leadsTo_loop (by simp) rfl (by simp) rfl heof rfl ?_
    simp
    rfl
  exact Grammar.leadsTo_unlessBodyEnds (fun _ => Situation.refines_many) (fun kind => hloop kind [])
    fun following => hloop .fnKeyword [following] (by decide)

theorem sound_statement : statement.Sound dialect := by
  rintro context situation -
  simp [Grammar.statement]
  intro kind
  fun_cases Grammar.statementForm? kind
  case case10 =>
    simp [Grammar.ifStartsExpression, Grammar.innerExpression]
    exact fun _ => ⟨rfl, Situation.refines_of_within rfl id⟩
  all_goals
    simp
    exact Situation.refines_of_within rfl id

theorem sound_variableDeclaration : variableDeclaration.Sound dialect := by
  rintro context situation hexpects
  rcases hahead : situation.ahead with _ | ⟨kind, ahead⟩
  · simp [hahead] at hexpects
  simp [hahead, Grammar.variableDeclaration, Grammar.typeAnnotation, Grammar.typeField,
    Grammar.anyType, Grammar.innerExpression] at hexpects ⊢
  rcases hexpects with rfl | rfl
  · have hlet (ahead : List TokenKind) : Situation.Refines
        ⟨[Form.bare [.letStatement]], ahead, true⟩
        ⟨[Form.bare [.letStatement, .constStatement]], [], true⟩ :=
      Situation.refines_of_within rfl id
    simp
    refine ⟨⟨⟨by cases dialect <;> rfl, hlet _⟩, fun _ _ hdialect => ⟨?_, hlet _⟩⟩,
      fun _ _ => ⟨fun _ => ⟨by cases dialect <;> rfl, hlet _⟩,
        fun _ hdialect => ⟨?_, hlet _⟩⟩⟩
    all_goals
      obtain rfl : dialect = .extended := by
        simpa [Dialect.allowsUninitializedLet] using hdialect
      rfl
  · have hconst (ahead : List TokenKind) : Situation.Refines
        ⟨[Form.bare [.constStatement]], ahead, true⟩
        ⟨[Form.bare [.letStatement, .constStatement]], [], true⟩ :=
      Situation.refines_of_within rfl id
    simp
    exact ⟨⟨rfl, hconst _⟩, fun _ _ _ => ⟨rfl, hconst _⟩⟩

theorem sound_returnStatement : returnStatement.Sound dialect := by
  rintro context situation -
  simp [Grammar.returnStatement, Grammar.ifStartsExpression, Grammar.innerExpression]
  exact fun _ => ⟨fun _ => rfl, fun _ => rfl⟩

theorem sound_deferStatement : deferStatement.Sound dialect := by
  rintro context situation -
  simp [Grammar.deferStatement, Grammar.innerExpression]
  rfl

theorem sound_ifStatement : ifStatement.Sound dialect := by
  rintro context situation -
  simp [Grammar.ifStatement]

theorem sound_forStatement : forStatement.Sound dialect := by
  rintro context situation -
  simp [Grammar.forStatement, Grammar.forHeader, Grammar.defaultExpression]
  exact ⟨rfl, fun _ _ _ => rfl⟩

theorem sound_loopStatement : loopStatement.Sound dialect := by
  rintro context situation -
  simp [Grammar.loopStatement]
  rfl

theorem sound_jump : jump.Sound dialect := by
  rintro context situation hexpects
  rcases hahead : situation.ahead with _ | ⟨kind, ahead⟩
  · simp [hahead] at hexpects
  simp [hahead, Grammar.jump] at hexpects ⊢
  rcases hexpects with rfl | rfl
  all_goals exact ⟨by decide, Situation.refines_of_within rfl id⟩

end Nonterminal

end LosslessSyntax
