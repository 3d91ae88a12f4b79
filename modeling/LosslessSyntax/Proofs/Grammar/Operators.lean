import LosslessSyntax.Proofs.Grammar.Lists
/-!
The contract of operators holds. Each operator makes one expression of its left operand and of what
follows, and every token with a binding power is one of the operators.
-/
namespace LosslessSyntax

open Rule
open NodeKind (expressions)

def Situation.IsExpression (situation : Situation) : Prop :=
  ∃ kind ∈ expressions, ∃ ahead, situation = ⟨[Form.bare [kind]], ahead, true⟩

theorem Situation.isExpression {kind : NodeKind} (h : kind ∈ expressions) (ahead : List TokenKind) :
    IsExpression ⟨[.one (loose [kind])], ahead, true⟩ :=
  ⟨kind, h, ahead, rfl⟩

namespace Grammar

variable {dialect : Dialect} {context : Context} {kind : TokenKind}

theorem leadsTo_assignment (h : kind ∈ [.assignment, .plusEquals]) :
    assignment.LeadsTo 0 dialect context Situation.IsExpression
      ⟨[Form.bare expressions], [kind], false⟩ := by
  have haccepts : ∀ left ∈ assignmentTargets, ∀ kind ∈ [.assignment, .plusEquals],
      NodeKind.assignmentExpression.accepts dialect
        [Form.fill .left [left], Form.fill .operator [.ofToken kind],
          Form.fill .right expressions] := by
    cases dialect <;> decide
  simp [assignment, operandKind?, defaultExpression]
  intro left _ hleft
  refine ⟨?_, haccepts left hleft kind h, Situation.isExpression (by decide) _⟩
  rintro rfl
  contradiction

theorem leadsTo_cast :
    cast.LeadsTo 0 dialect context Situation.IsExpression
      ⟨[Form.bare expressions], [.asKeyword], false⟩ := by
  have haccepts : ∀ value ∈ expressions, NodeKind.castExpression.accepts dialect
      [Form.fill .value [value], Form.word .asKeyword, Form.fill .type NodeKind.types] := by
    cases dialect <;> decide
  simp [cast, operandKind?, typeField, anyType]
  exact fun value hvalue _ => ⟨haccepts value hvalue, Situation.isExpression (by decide) _⟩

theorem leadsTo_range (power : BindingPower) :
    (range power).LeadsTo 0 dialect context Situation.IsExpression
      ⟨[Form.bare expressions], [.dotDot], false⟩ := by
  have haccepts : ∀ left ∈ expressions, ∀ right ∈ [[], [Form.fill .right expressions]],
      NodeKind.binaryExpression.accepts dialect
        ([Form.fill .left [left], Form.fill .operator [.token .dotDot]] ++ right) := by
    cases dialect <;> decide
  simp [range, ifStartsExpression]
  intro left hleft _ _ _
  exact ⟨fun _ => ⟨haccepts left hleft _ (.tail _ (.head _)), Situation.isExpression (by decide) _⟩,
    fun _ => ⟨haccepts left hleft _ (.head _), Situation.isExpression (by decide) _⟩⟩

theorem leadsTo_member (ahead : List TokenKind) :
    member.LeadsTo 0 dialect context Situation.IsExpression
      ⟨[Form.bare expressions], .dot :: ahead, false⟩ := by
  cases ahead with
  | nil =>
    simp [member]
    intro found
    split <;> simp
    all_goals exact ⟨rfl, Situation.isExpression (by decide) _⟩
  | cons found ahead =>
    simp [member]
    split <;> simp
    all_goals exact ⟨rfl, Situation.isExpression (by decide) _⟩

theorem leadsTo_optionalChain :
    optionalChain.LeadsTo 0 dialect context Situation.IsExpression
      ⟨[Form.bare expressions], [.questionDot], false⟩ := by
  simp [optionalChain]
  intro found
  split
  case h_3 => simp
  all_goals
    simp
    exact ⟨rfl, Situation.isExpression (by decide) _⟩

theorem leadsTo_index :
    index.LeadsTo 0 dialect context Situation.IsExpression
      ⟨[Form.bare expressions], [.openBracket], false⟩ := by
  simp [index, innerExpression]
  exact ⟨rfl, Situation.isExpression (by decide) _⟩

theorem leadsTo_functionCall :
    functionCall.LeadsTo 0 dialect context Situation.IsExpression
      ⟨[Form.bare expressions], [.openParen], false⟩ := by
  have haccepts : ∀ function ∈ callTargets, ∀ arguments ∈ [[], Listing.arguments.filled],
      NodeKind.functionCall.accepts dialect
        (Form.fill .function [function] :: Form.word .openParen :: arguments ++
          [Form.word .closeParen]) := by
    cases dialect <;> decide
  simp [functionCall, operandKind?, Listing.filled]
  intro function _ hfunction
  exact ⟨⟨haccepts function hfunction _ (.head _), Situation.isExpression (by decide) _⟩,
    haccepts function hfunction _ (.tail _ (.head _)), Situation.isExpression (by decide) _⟩

theorem leadsTo_matchExpression :
    matchExpression.LeadsTo 0 dialect context Situation.IsExpression
      ⟨[Form.bare expressions], [.matchKeyword], false⟩ := by
  simp [matchExpression]
  exact ⟨rfl, Situation.isExpression (by decide) _⟩

theorem leadsTo_binary (power : BindingPower) (h : NodeKind.ofToken kind ∈ Form.binaryOperators) :
    (binary power).LeadsTo 0 dialect context Situation.IsExpression
      ⟨[Form.bare expressions], [kind], false⟩ := by
  have haccepts : ∀ operator ∈ Form.binaryOperators, NodeKind.binaryExpression.accepts dialect
      [Form.fill .left expressions, Form.fill .operator [operator],
        Form.fill .right expressions] := by
    cases dialect <;> decide
  simp [binary]
  refine ⟨?_, haccepts _ h, Situation.isExpression (by decide) _⟩
  rintro rfl
  contradiction

theorem operation?_isSome : ∀ kind, (Precedence.power? kind).isSome → (operation? kind).isSome := by
  decide

/-- What the operators make of a left operand: those with a form of their own, and those between two
operands that the table gives. -/
inductive OperatesBy : TokenKind → (BindingPower → Rule) → Prop where
  | assignment : OperatesBy .assignment fun _ => assignment
  | plusEquals : OperatesBy .plusEquals fun _ => assignment
  | cast : OperatesBy .asKeyword fun _ => cast
  | range : OperatesBy .dotDot range
  | member : OperatesBy .dot fun _ => member
  | optionalChain : OperatesBy .questionDot fun _ => optionalChain
  | index : OperatesBy .openBracket fun _ => index
  | functionCall : OperatesBy .openParen fun _ => functionCall
  | matchExpression : OperatesBy .matchKeyword fun _ => matchExpression
  | binary {kind : TokenKind} {level : PrecedenceLevel} (known : level ∈ Precedence.levelOf? kind)
      (associativity : level.associativity = .left) (range : kind ≠ .dotDot) :
      OperatesBy kind binary

theorem operatesBy_of_operation? {operation : BindingPower → Rule}
    (h : operation? kind = some operation) : OperatesBy kind operation := by
  revert h
  fun_cases operation? kind
  case case10 hrange _ _ _ _ _ =>
    simp only [Option.bind_eq_some_iff, Option.ite_none_right_eq_some, Option.some.injEq]
    rintro ⟨level, known, associativity, rfl⟩
    exact .binary known associativity hrange
  all_goals
    intro h
    obtain rfl := Option.some.inj h
    constructor

theorem mem_binaryOperators : ∀ kind, ∀ level ∈ Precedence.levelOf? kind,
    level.associativity = .left → kind = .dotDot ∨ .ofToken kind ∈ Form.binaryOperators := by
  decide

theorem leadsTo_operation {operation : BindingPower → Rule} (power : BindingPower)
    (h : operation? kind = some operation) (hdot : kind ≠ .dot) :
    (operation power).LeadsTo 0 dialect context Situation.IsExpression
      ⟨[Form.bare expressions], [kind], false⟩ := by
  cases operatesBy_of_operation? h with
  | assignment => exact leadsTo_assignment (by decide)
  | plusEquals => exact leadsTo_assignment (by decide)
  | cast => exact leadsTo_cast
  | range => exact leadsTo_range power
  | member => contradiction
  | optionalChain => exact leadsTo_optionalChain
  | index => exact leadsTo_index
  | functionCall => exact leadsTo_functionCall
  | matchExpression => exact leadsTo_matchExpression
  | binary known associativity hrange =>
    have hoperator := (mem_binaryOperators kind _ known associativity).resolve_left hrange
    exact leadsTo_binary power hoperator

end Grammar

namespace Nonterminal

theorem sound_operators {dialect : Dialect} (power : BindingPower) :
    (operators power).Sound dialect := by
  rintro context situation -
  have hcontinue : ∀ last, last.IsExpression →
      (Rule.call (.operators power)).LeadsTo 0 dialect context
        (fun last => last.Refines ⟨[Form.bare expressions], [], false⟩) last := by
    rintro _ ⟨kind, hkind, ahead, rfl⟩
    have hwithin : ∀ kind ∈ expressions,
        Shape.within [Form.bare [kind]] [Form.bare expressions] := by decide
    simp
    exact hwithin kind hkind
  simp [Grammar.operators]
  intro kind
  rcases hpower : Precedence.power? kind with _ | own
  · simp
  obtain ⟨operation, hoperation⟩ :=
    Option.isSome_iff_exists.mp (Grammar.operation?_isSome kind (by simp [hpower]))
  simp [hoperation, -leadsTo_call]
  refine fun _ => ⟨?_, fun hdot => ?_⟩
  · rintro rfl following -
    obtain rfl : (fun _ => Grammar.member) = operation := by
      simpa [Grammar.operation?] using hoperation
    exact (Grammar.leadsTo_member [following]).imp (hcontinue _)
  · exact (Grammar.leadsTo_operation own hoperation hdot).imp (hcontinue _)

end Nonterminal

end LosslessSyntax
