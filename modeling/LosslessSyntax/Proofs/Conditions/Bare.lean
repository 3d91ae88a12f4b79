import LosslessSyntax.Proofs.Precedence.Climb
/-!
Bare expressions: in a condition a brace after a name is left for the body, so no struct literal
stands at an open end of an expression that is read there.
-/
namespace LosslessSyntax

/-- The slots of the operands that stand open in an expression, with no bracket around them. -/
def NodeKind.openSlots : NodeKind → List Field
  | .binaryExpression | .assignmentExpression => [.left, .right]
  | .unaryExpression => [.operand]
  | .castExpression => [.value]
  | kind => (Node.trailedSlot? kind).toList

/-- The expression is no struct literal, and neither is an operand that stands open in it, however
deep. -/
inductive Node.Bare : Node → Prop where
  | intro {node : Node} (kind : node.kind ≠ .structLiteral)
      (operands : ∀ slot ∈ node.kind.openSlots, ∀ operand,
        node.childByField? slot = some operand → Bare operand) : Bare node

namespace Node

variable {node left right : Node} {kind : NodeKind} {offset : UInt32} {children more : List Node}
  {field slot : Field}

theorem Bare.kind_ne (h : node.Bare) : node.kind ≠ .structLiteral := by
  cases h with
  | intro hkind _ => exact hkind

theorem Bare.operand (h : node.Bare) (hslot : slot ∈ node.kind.openSlots) {operand : Node}
    (hoperand : node.childByField? slot = some operand) : operand.Bare := by
  cases h with
  | intro _ hoperands => exact hoperands slot hslot operand hoperand

@[simp] theorem bare_withField : (node.withField field).Bare ↔ node.Bare :=
  ⟨fun h => ⟨h.kind_ne, fun _ hslot _ => h.operand hslot⟩,
    fun h => ⟨h.kind_ne, fun _ hslot _ => h.operand hslot⟩⟩

theorem bare_of_closed (hslots : node.kind.openSlots = []) (hkind : node.kind ≠ .structLiteral) :
    node.Bare :=
  ⟨hkind, by simp [hslots]⟩

theorem bare_ofToken (token : Token) : (ofToken token).Bare := by
  have hkinds : ∀ kind, (NodeKind.ofToken kind).openSlots = [] ∧
      NodeKind.ofToken kind ≠ .structLiteral := by decide
  exact bare_of_closed (hkinds token.kind).1 (hkinds token.kind).2

theorem bare_infix {operator : Node}
    (hkind : kind = .binaryExpression ∨ kind = .assignmentExpression)
    (hleft : left.Bare) (hright : right.Bare) :
    (ofChildren kind offset [left.withField .left, operator.withField .operator,
      right.withField .right]).Bare := by
  rcases hkind with rfl | rfl
  · refine ⟨by simp [ofChildren], ?_⟩
    simp [NodeKind.openSlots, hleft, hright]
  · refine ⟨by simp [ofChildren], ?_⟩
    simp [NodeKind.openSlots, hleft, hright]

theorem bare_openRange {operator : Node} (hleft : left.Bare) :
    (ofChildren .binaryExpression offset
      [left.withField .left, operator.withField .operator]).Bare := by
  refine ⟨by simp [ofChildren], ?_⟩
  simp [NodeKind.openSlots, hleft]

theorem bare_cast (hleft : left.Bare) :
    (ofChildren .castExpression offset (left.withField .value :: more)).Bare := by
  refine ⟨by simp [ofChildren], ?_⟩
  simp [NodeKind.openSlots, hleft]

theorem bare_trailed (hslot : trailedSlot? kind = some slot) (hleft : left.Bare) :
    (ofChildren kind offset (left.withField slot :: more)).Bare := by
  have hkind : kind ≠ .structLiteral ∧ kind.openSlots = [slot] := by
    revert hslot
    fun_cases trailedSlot? kind <;> rintro ⟨⟩ <;> exact ⟨by decide, rfl⟩
  refine ⟨hkind.1, ?_⟩
  simp [hkind.2, hleft]

end Node

def IsBare (nodes : List Node) : Prop := ∃ node : Node, nodes = [node] ∧ node.Bare

/-- The rule ends with the making of a node of a kind with a property. -/
def Rule.EndsIn (P : NodeKind → Prop) : Rule → Prop
  | .seq _ next => next.EndsIn P
  | .look _ next => ∀ kind, (next kind).EndsIn P
  | .wrap kind => P kind
  | .fail _ => True
  | .within _ rule => rule.EndsIn P
  | .byContext next => ∀ context, (next context).EndsIn P
  | .byDialect next => ∀ dialect, (next dialect).EndsIn P
  | _ => False

namespace Rule

variable {P : NodeKind → Prop} {rule next yes no : Rule} {rules : List Rule} {kind : TokenKind}

attribute [simp] EndsIn

@[simp] theorem endsIn_steps_singleton : (steps [rule]).EndsIn P ↔ rule.EndsIn P := Iff.rfl

@[simp] theorem endsIn_steps_cons :
    (steps (rule :: next :: rules)).EndsIn P ↔ (steps (next :: rules)).EndsIn P := Iff.rfl

@[simp] theorem endsIn_ite {c : Prop} [Decidable c] :
    (if c then yes else no).EndsIn P ↔ (c → yes.EndsIn P) ∧ (¬c → no.EndsIn P) := by
  split <;> simp [*]

theorem EndsIn.satisfies {expand : Nonterminal → Action} {setting : Setting} {nodes : List Node}
    {cursor : Cursor} (h : rule.EndsIn P) :
    (rule.run expand setting nodes cursor).Satisfies True fun after _ =>
      ∃ node : Node, after = [node] ∧ P node.kind := by
  induction rule generalizing setting nodes cursor with
  | seq first next ihFirst ihNext =>
    rw [satisfies_seq]
    exact .of_forall fun _ _ => ihNext h
  | look distance next ih => exact ih _ (h _)
  | wrap kind => exact ⟨_, rfl, h⟩
  | fail => trivial
  | within context rule ih => exact ih h
  | byContext next ih => exact ih _ (h _)
  | byDialect next ih => exact ih _ (h _)
  | _ => contradiction

end Rule

namespace Nonterminal

/-- What an outcome of a nonterminal has to do with bare expressions. All that is asked of it is
about conditions, but for the one nonterminal that leaves them. -/
def StaysBare (setting : Setting) (nodes : List Node) (outcome : Outcome (List Node)) :
    Nonterminal → Prop
  | .conditional => outcome.Satisfies True fun after _ => IsBare after
  | .operators _ =>
    setting.context = .condition → IsBare nodes → outcome.Satisfies True fun after _ => IsBare after
  | .expression _ | .unary | .primary | .typeNameExpression | .anonymousStruct | .grouping
  | .arrayLiteral | .ifExpression | .lambda =>
    setting.context = .condition → nodes = [] →
      outcome.Satisfies True fun after _ => IsBare after
  | _ => True

def AllStayBare (expand : Nonterminal → Action) : Prop :=
  ∀ (name : Nonterminal) (setting : Setting) (nodes : List Node) (cursor : Cursor),
    name.StaysBare setting nodes (expand name setting nodes cursor)

end Nonterminal

variable {expand : Nonterminal → Action} {setting : Setting} {nodes : List Node} {cursor : Cursor}

theorem Rule.EndsIn.isBare {rule : Rule}
    (h : rule.EndsIn fun kind => kind.openSlots = [] ∧ kind ≠ .structLiteral) :
    (rule.run expand setting nodes cursor).Satisfies True fun after _ => IsBare after := by
  refine h.satisfies.imp ?_
  rintro _ _ ⟨node, rfl, hslots, hkind⟩
  exact ⟨node, rfl, Node.bare_of_closed hslots hkind⟩

namespace Grammar

open Rule

variable {left : Node} {own : BindingPower} {slot : Field}

theorem isBare_trailed {kind : NodeKind} {offset : UInt32} {operator : Node}
    {more after : List Node}
    (hslot : Node.trailedSlot? kind = some slot) (hleft : left.Bare)
    (h : [left.withField slot, operator] <+: after) :
    IsBare [.ofChildren kind offset (after ++ more)] := by
  obtain ⟨rest, rfl⟩ := h
  exact ⟨_, rfl, Node.bare_trailed hslot hleft⟩

variable (hcalls : Nonterminal.AllStayBare expand) (hobeys : Nonterminal.AllObey expand)
  (hcontext : setting.context = .condition) (hleft : left.Bare)

include hcalls hcontext hleft in
theorem isBare_binary :
    ((binary own).run expand setting [left] cursor).Satisfies True fun after _ => IsBare after := by
  simp [binary, replaceLast, Node.ofTokenAs]
  refine (hcalls (.expression own) _ _ _ hcontext rfl).imp ?_
  rintro _ _ ⟨right, rfl, hright⟩
  exact ⟨_, rfl, Node.bare_infix (.inl rfl) hleft hright⟩

include hcalls hcontext hleft in
theorem isBare_range :
    ((range own).run expand setting [left] cursor).Satisfies True fun after _ => IsBare after := by
  simp only [range, satisfies_byOperand]
  split
  · simp
  simp [replaceLast, Node.ofTokenAs, ifStartsExpression]
  split
  · simp
    refine (hcalls (.expression own) _ _ _ hcontext rfl).imp ?_
    rintro _ _ ⟨right, rfl, hright⟩
    exact ⟨_, rfl, Node.bare_infix (.inl rfl) hleft hright⟩
  · simp
    exact ⟨_, rfl, Node.bare_openRange hleft⟩

include hcalls hcontext hleft in
theorem isBare_assignment :
    (assignment.run expand setting [left] cursor).Satisfies True fun after _ => IsBare after := by
  simp only [assignment, satisfies_byOperand]
  split
  · simp [replaceLast, Node.ofTokenAs, defaultExpression]
    refine (hcalls (.expression .default) _ _ _ hcontext rfl).imp ?_
    rintro _ _ ⟨right, rfl, hright⟩
    exact ⟨_, rfl, Node.bare_infix (.inr rfl) hleft hright⟩
  · simp

include hleft in
theorem isBare_cast :
    (Grammar.cast.run expand setting [left] cursor).Satisfies True fun after _ => IsBare after := by
  simp only [Grammar.cast, satisfies_byOperand]
  split
  · simp
  simp [replaceLast, Node.ofTokenAs, typeField, anyType]
  exact .of_forall fun _ _ => ⟨_, rfl, Node.bare_cast hleft⟩

include hleft in
theorem isBare_member :
    (member.run expand setting [left] cursor).Satisfies True fun after _ => IsBare after := by
  simp [member, replaceLast, Node.ofTokenAs]
  split <;> simp [replaceLast, Node.ofTokenAs]
  all_goals exact ⟨_, rfl, Node.bare_trailed rfl hleft⟩

include hleft in
theorem isBare_optionalChain :
    (optionalChain.run expand setting [left] cursor).Satisfies True
      fun after _ => IsBare after := by
  simp [optionalChain, replaceLast, Node.ofTokenAs]
  split <;> simp [replaceLast, Node.ofTokenAs]
  all_goals exact ⟨_, rfl, Node.bare_trailed rfl hleft⟩

include hobeys hleft

theorem isBare_index :
    (index.run expand setting [left] cursor).Satisfies True fun after _ => IsBare after := by
  simp [index, replaceLast, Node.ofTokenAs, innerExpression]
  refine (hobeys (.expression .default) _ _ _ rfl).imp ?_
  rintro _ _ ⟨inner, rfl, -⟩
  simp [replaceLast]
  exact fun _ => ⟨_, rfl, Node.bare_trailed rfl hleft⟩

theorem isBare_functionCall :
    (functionCall.run expand setting [left] cursor).Satisfies True fun after _ => IsBare after := by
  simp only [functionCall, satisfies_byOperand]
  split
  · simp [replaceLast, Node.ofTokenAs]
    refine ((hobeys (.list .arguments) _ _ _).grows rfl).imp ?_
    exact fun h _ => isBare_trailed rfl hleft h
  · simp

theorem isBare_matchExpression :
    (matchExpression.run expand setting [left] cursor).Satisfies True
      fun after _ => IsBare after := by
  simp [matchExpression, replaceLast, Node.ofTokenAs]
  intro _
  refine ((hobeys .arms _ _ _).grows rfl).imp ?_
  exact fun h _ => isBare_trailed rfl hleft ((List.prefix_append _ _).trans h)

include hcalls hcontext

theorem isBare_operation {kind : TokenKind} {operation : BindingPower → Rule}
    (hoperation : operation? kind = some operation) :
    ((operation own).run expand setting [left] cursor).Satisfies True
      fun after _ => IsBare after := by
  cases operatesBy_of_operation? hoperation with
  | assignment => exact isBare_assignment hcalls hcontext hleft
  | plusEquals => exact isBare_assignment hcalls hcontext hleft
  | cast => exact isBare_cast hleft
  | range => exact isBare_range hcalls hcontext hleft
  | member => exact isBare_member hleft
  | optionalChain => exact isBare_optionalChain hleft
  | index => exact isBare_index hobeys hleft
  | functionCall => exact isBare_functionCall hobeys hleft
  | matchExpression => exact isBare_matchExpression hobeys hleft
  | binary => exact isBare_binary hcalls hcontext hleft

end Grammar

namespace Nonterminal

variable (hcalls : AllStayBare expand)

include hcalls

theorem staysBare_form {form : Nonterminal} {kind : TokenKind}
    (h : Grammar.leadingForm? kind = some form) (hcontext : setting.context = .condition) :
    (expand form setting [] cursor).Satisfies True fun after _ => IsBare after := by
  have hform := hcalls form setting [] cursor
  revert h
  fun_cases Grammar.leadingForm? kind <;> rintro ⟨⟩ <;> exact hform hcontext rfl

theorem staysBare_expression (power : BindingPower) :
    (expression power).StaysBare setting nodes
      ((expression power).rule.run expand setting nodes cursor) := by
  rintro hcontext rfl
  simp only [rule, Grammar.expression, Rule.satisfies_onKind]
  split
  · rename_i form hform
    simp only [Rule.satisfies_steps_cons, Rule.satisfies_steps_singleton, Rule.satisfies_call]
    refine (staysBare_form hcalls hform hcontext).imp fun h => ?_
    exact hcalls (.operators power) _ _ _ hcontext h
  · simp

theorem staysBare_operators (hobeys : AllObey expand) (power : BindingPower) :
    (operators power).StaysBare setting nodes
      ((operators power).rule.run expand setting nodes cursor) := by
  rintro hcontext ⟨left, rfl, hleft⟩
  simp only [rule, Grammar.operators, Rule.satisfies_onKind]
  generalize hkind : setting.stream.kind cursor.position = kind
  split
  · rename_i own hown
    obtain ⟨operation, hoperation⟩ :=
      Option.isSome_iff_exists.mp (Grammar.operation?_isSome kind (by simp [hown]))
    have hdone (cursor : Cursor) : (Rule.empty.run expand setting [left] cursor).Satisfies True
        fun after _ => IsBare after := ⟨left, rfl, hleft⟩
    have hnext (cursor : Cursor) :
        ((Rule.steps [operation own, .call (.operators power)]).run expand setting [left]
          cursor).Satisfies True fun after _ => IsBare after := by
      rw [Rule.satisfies_steps_cons]
      exact (Grammar.isBare_operation hcalls hobeys hcontext hleft hoperation).imp fun h =>
        hcalls (.operators power) _ _ _ hcontext h
    simp only [hoperation]
    split_ifs
    · exact hdone _
    · rw [Rule.satisfies_look]
      split_ifs
      · exact hdone _
      · exact hnext _
    · exact hnext _
  · exact ⟨left, rfl, hleft⟩

theorem staysBare_unary :
    unary.StaysBare setting nodes (unary.rule.run expand setting nodes cursor) := by
  rintro hcontext rfl
  simp [Grammar.unary, Node.ofTokenAs, replaceLast]
  refine (hcalls (.expression .unary) _ _ _ hcontext rfl).imp ?_
  rintro _ _ ⟨operand, rfl, hoperand⟩
  refine ⟨_, rfl, by simp, ?_⟩
  simp [NodeKind.openSlots, replaceLast, hoperand]

theorem staysBare_rule (hobeys : AllObey expand) (name : Nonterminal) :
    name.StaysBare setting nodes (name.rule.run expand setting nodes cursor) := by
  cases name with
  | conditional =>
    refine Rule.EndsIn.isBare ?_
    simp [Grammar.conditional]
    intro context
    split <;> simp [NodeKind.openSlots, Node.trailedSlot?]
  | expression power => exact staysBare_expression hcalls power
  | operators power => exact staysBare_operators hcalls hobeys power
  | unary => exact staysBare_unary hcalls
  | primary =>
    rintro hcontext rfl
    have hleaf (token : Token) : IsBare [.ofToken token] := ⟨_, rfl, Node.bare_ofToken token⟩
    simp only [rule, Grammar.primary, Rule.satisfies_onKind]
    split
    case h_1 =>
      rw [Rule.satisfies_byDialect]
      split
      · rw [Rule.satisfies_look]
        split
        · simp [hcontext, Node.ofTokenAs, hleaf]
        · simp [Node.ofTokenAs, hleaf]
      · simp [Node.ofTokenAs, hleaf]
    case h_9 => simp
    all_goals simp [Node.ofTokenAs, hleaf]
  | typeNameExpression =>
    rintro hcontext rfl
    simp [Grammar.typeNameExpression, hcontext, Node.ofTokenAs]
    exact ⟨_, rfl, Node.bare_ofToken _⟩
  | anonymousStruct =>
    refine fun _ _ => Rule.EndsIn.isBare ?_
    simp [Grammar.anonymousStruct, NodeKind.openSlots, Node.trailedSlot?]
  | grouping =>
    refine fun _ _ => Rule.EndsIn.isBare ?_
    simp [Grammar.grouping, Rule.ifAt, Rule.onKind, NodeKind.openSlots, Node.trailedSlot?]
  | arrayLiteral =>
    refine fun _ _ => Rule.EndsIn.isBare ?_
    simp [Grammar.arrayLiteral, NodeKind.openSlots, Node.trailedSlot?]
  | ifExpression =>
    intro _ _
    simp only [rule, Grammar.ifExpression, Rule.satisfies_within, Rule.satisfies_call]
    exact hcalls .conditional _ _ _
  | lambda =>
    refine fun _ _ => Rule.EndsIn.isBare ?_
    simp [Grammar.lambda, NodeKind.openSlots, Node.trailedSlot?]
  | _ => trivial

omit hcalls

theorem allStayBare_run (depth : Nat) : AllStayBare (run depth) := by
  induction depth with
  | zero =>
    intro name setting nodes cursor
    cases name <;> simp [StaysBare, run, Outcome.Satisfies]
  | succ depth ih =>
    exact fun name setting nodes cursor => staysBare_rule ih (allObey_run depth) name

end Nonterminal

end LosslessSyntax
