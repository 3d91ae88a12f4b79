import LosslessSyntax.Proofs.Precedence.Frame
import LosslessSyntax.Proofs.SourceFile
/-!
Precedence climbing: what the loop over operators knows of the operand on its left, what each
operator makes of it, and that every tree keeps the precedence in the end.
-/
namespace LosslessSyntax

open Node (Throughout KeepsPrecedence)

variable {expand : Nonterminal → Action} {setting : Setting} {nodes : List Node} {cursor : Cursor}
  {stream : TokenStream} {power own : BindingPower}

theorem Node.exceeds_of_kind {node : Node} (h : node.kind ∉ NodeKind.loose) :
    node.Exceeds power := by
  simp only [NodeKind.loose, List.mem_cons, List.not_mem_nil, or_false, not_or] at h
  exact ⟨fun hkind => absurd hkind h.1, fun hkind => absurd hkind h.2.2.1,
    fun hkind => absurd hkind h.2.2.2⟩

theorem Node.admits_of_ne {node : Node} (hbinary : node.kind ≠ .binaryExpression)
    (hunary : node.kind ≠ .unaryExpression) (hassignment : node.kind ≠ .assignmentExpression) :
    node.Admits own :=
  ⟨by simp [level?_eq_none hbinary], fun hkind => absurd hkind hunary, hassignment⟩

theorem Node.admits_of_kind {node : Node} (h : node.kind ∉ NodeKind.loose) : node.Admits own := by
  simp only [NodeKind.loose, List.mem_cons, List.not_mem_nil, or_false, not_or] at h
  exact admits_of_ne h.1 h.2.1 h.2.2.2

theorem IsTight.operandAt (h : IsTight nodes) (hnodes : Throughout KeepsPrecedence nodes) :
    OperandAt stream power nodes cursor := by
  obtain ⟨node, rfl, hkind⟩ := h
  exact ⟨node, rfl, hnodes, Node.exceeds_of_kind hkind, fun _ _ => Node.admits_of_kind hkind⟩

theorem Nonterminal.Frames.exists_more {name : Nonterminal} {outcome : Outcome (List Node)}
    (h : name.Frames nodes outcome) (hlist : name.isList)
    (hnodes : Throughout KeepsPrecedence nodes) :
    outcome.Satisfies True fun after _ =>
      ∃ more, after = nodes ++ more ∧ Throughout KeepsPrecedence more := by
  refine ((h.grows hlist).and (h.keeps hnodes)).imp ?_
  rintro _ _ ⟨⟨more, rfl⟩, hafter⟩
  exact ⟨more, rfl, (Node.throughout_append.mp hafter).2⟩

namespace Grammar

open Rule

theorem operandAt_trailed {left : Node} {kind : NodeKind} {slot : Field} {offset : UInt32}
    {more : List Node} (hslot : Node.trailedSlot? kind = some slot)
    (hleft : Throughout KeepsPrecedence [left]) (hadmits : left.Admits .member)
    (hmore : Throughout KeepsPrecedence more) :
    OperandAt stream power [.ofChildren kind offset (left.withField slot :: more)] cursor := by
  have hkind : kind ∉ NodeKind.loose := by
    intro hkind
    simp only [NodeKind.loose, List.mem_cons, List.not_mem_nil, or_false] at hkind
    rcases hkind with rfl | rfl | rfl | rfl <;> contradiction
  simp only [Node.throughout_cons, Node.throughout_nil, and_true] at hleft
  refine IsTight.operandAt ⟨_, rfl, hkind⟩ ?_
  simp only [Node.throughout_cons, Node.throughout_nil, and_true]
  refine ⟨Node.keepsPrecedence_trailed hslot hadmits hleft.1, ?_⟩
  exact Node.throughout_cons.mpr ⟨Node.keepsPrecedence_withField.mpr hleft.1, hleft.2, hmore⟩

variable {left : Node} (hcalls : Nonterminal.AllObey expand)
  (hleft : Throughout KeepsPrecedence [left])

include hleft

theorem satisfies_member (hadmits : left.Admits .member) :
    (member.run expand setting [left] cursor).Satisfies True (OperandAt setting.stream power) := by
  simp [member, replaceLast, Node.ofTokenAs]
  split <;> simp [replaceLast, Node.ofTokenAs]
  all_goals exact operandAt_trailed rfl hleft hadmits (by simp)

theorem satisfies_optionalChain (hadmits : left.Admits .member) :
    (optionalChain.run expand setting [left] cursor).Satisfies True
      (OperandAt setting.stream power) := by
  simp [optionalChain, replaceLast, Node.ofTokenAs]
  split <;> simp [replaceLast, Node.ofTokenAs]
  all_goals exact operandAt_trailed rfl hleft hadmits (by simp)

include hcalls

theorem satisfies_index (hadmits : left.Admits .member) :
    (index.run expand setting [left] cursor).Satisfies True (OperandAt setting.stream power) := by
  simp [index, replaceLast, Node.ofTokenAs, innerExpression]
  refine (hcalls (.expression .default) _ _ _ rfl).imp ?_
  rintro _ after ⟨node, rfl, hnode, -⟩
  simp [replaceLast] at hnode ⊢
  exact fun _ => operandAt_trailed rfl hleft hadmits (by simp [hnode])

theorem satisfies_functionCall (hadmits : left.Admits .member) :
    (functionCall.run expand setting [left] cursor).Satisfies True
      (OperandAt setting.stream power) := by
  simp [functionCall]
  split
  · simp [replaceLast, Node.ofTokenAs]
    refine ((hcalls (.list .arguments) _ _ _).exists_more rfl (by simpa using hleft)).imp ?_
    rintro _ after ⟨more, rfl, hmore⟩
    simp
    exact fun _ => operandAt_trailed rfl hleft hadmits (by simp [hmore])
  · simp

theorem satisfies_matchExpression (hadmits : left.Admits .member) :
    (matchExpression.run expand setting [left] cursor).Satisfies True
      (OperandAt setting.stream power) := by
  simp [matchExpression, replaceLast, Node.ofTokenAs]
  intro _
  refine ((hcalls .arms _ _ _).exists_more rfl (by simpa using hleft)).imp ?_
  rintro _ after ⟨more, rfl, hmore⟩
  simp
  exact fun _ => operandAt_trailed rfl hleft hadmits (by simp [hmore])

theorem satisfies_cast (hadmits : left.Admits .cast) (hpower : power < .cast) :
    (cast.run expand setting [left] cursor).Satisfies True (OperandAt setting.stream power) := by
  simp [cast]
  split
  · simp
  rename_i hkind
  simp [replaceLast, Node.ofTokenAs, typeField, anyType]
  refine ((hcalls (.type .default) _ _ _).keeps Node.throughout_nil).imp ?_
  intro more after hmore
  -- whatever the type is, the value stays in front of it
  have htype :
      Throughout KeepsPrecedence (.ofToken (setting.stream.get cursor.position) :: more) := by
    simpa using hmore
  have hrest := Node.throughout_label htype .type
  have hcast : left.kind ≠ .castExpression := fun hcast => hkind (congrArg some hcast)
  simp only [Node.throughout_cons, Node.throughout_nil, and_true] at hleft
  refine ⟨_, rfl, ?_, ⟨by simp, fun _ => hpower, by simp⟩,
    fun _ _ => Node.admits_of_ne (by simp) (by simp) (by simp)⟩
  simp only [Node.throughout_cons, Node.throughout_nil, and_true]
  refine ⟨Node.keepsPrecedence_cast hadmits hleft.1 hcast, ?_⟩
  exact Node.throughout_cons.mpr ⟨Node.keepsPrecedence_withField.mpr hleft.1, hleft.2, hrest⟩

theorem satisfies_assignment (hpower : power < .assignment) :
    (assignment.run expand setting [left] cursor).Satisfies True
      (OperandAt setting.stream power) := by
  simp [assignment]
  split
  · simp [replaceLast, Node.ofTokenAs, defaultExpression]
    refine (hcalls (.expression .default) _ _ _ rfl).imp ?_
    rintro _ after ⟨node, rfl, hnode, -, hnext⟩
    have hkind : NodeKind.assignmentExpression ∉ Node.operations := by decide
    simp only [Node.throughout_cons, Node.throughout_nil, and_true] at hleft hnode
    refine ⟨_, rfl, ?_, ⟨by simp, by simp, fun _ => hpower⟩, fun own hown => ?_⟩
    · simp only [Node.throughout_cons, Node.throughout_nil, and_true]
      refine ⟨Node.keepsPrecedence_of_kind hkind, ?_⟩
      simp [Node.ofChildren, replaceLast, hleft, hnode]
    · have hpositive := TokenStream.default_lt_of_operatorPower? hown
      exact absurd (hnext own hown) (Nat.not_le.mpr hpositive)
  · simp

omit hcalls

theorem operandAt_binary {token : Token} {level : PrecedenceLevel} {offset : UInt32}
    {more : List Node}
    (hlevel : level ∈ Precedence.levelOf? token.kind) (hassociativity : level.associativity = .left)
    (hadmits : left.Admits level.power) (hpower : power < level.power)
    (hrange : token.kind = .dotDot → ¬left.IsRange)
    (hmore : more = [] ∨ ∃ right : Node, more = [right.withField .right] ∧
      Throughout KeepsPrecedence [right] ∧ right.Exceeds level.power ∧
      ∀ own, stream.operatorPower? cursor.position = some own → own ≤ level.power) :
    OperandAt stream power [.ofChildren .binaryExpression offset (left.withField .left ::
      (Node.ofToken token).withField .operator :: more)] cursor := by
  simp only [Node.throughout_cons, Node.throughout_nil, and_true] at hleft
  have hlevel' : (Node.ofChildren .binaryExpression offset (left.withField .left ::
      (Node.ofToken token).withField .operator :: more)).level? = some level :=
    Node.level?_binary hlevel hassociativity
  have hmore' : more = [] ∨ ∃ right : Node, more = [right.withField .right] ∧
      right.Exceeds level.power := by
    refine hmore.imp id ?_
    rintro ⟨right, rfl, -, hright, -⟩
    exact ⟨right, rfl, hright⟩
  refine ⟨_, rfl, ?_, ⟨fun _ => ⟨level, hlevel', hassociativity, hpower⟩, by simp, by simp⟩,
    fun own hown => ⟨fun inner hinner hclosed => ?_, by simp, by simp⟩⟩
  · simp only [Node.throughout_cons, Node.throughout_nil, and_true]
    refine ⟨Node.keepsPrecedence_binary hlevel hassociativity hadmits hrange hmore', ?_⟩
    rcases hmore with rfl | ⟨right, rfl, hright, -⟩
    · simp [Node.ofChildren, hleft]
    · simp only [Node.throughout_cons, Node.throughout_nil, and_true] at hright
      simp [Node.ofChildren, hleft, hright]
  · obtain rfl : level = inner := Option.some.inj (hlevel'.symm.trans hinner)
    rcases hmore with rfl | ⟨right, rfl, -, -, hnext⟩
    · simp [Node.isClosed] at hclosed
    · exact hnext own hown

include hcalls

theorem satisfies_binary {level : PrecedenceLevel}
    (hlevel : level ∈ Precedence.levelOf? (setting.stream.kind cursor.position))
    (hassociativity : level.associativity = .left) (hadmits : left.Admits level.power)
    (hpower : power < level.power) (hdot : setting.stream.kind cursor.position ≠ .dotDot) :
    ((binary level.power).run expand setting [left] cursor).Satisfies True
      (OperandAt setting.stream power) := by
  simp [binary, replaceLast, Node.ofTokenAs]
  refine (hcalls (.expression level.power) _ _ _ rfl).imp ?_
  rintro _ after ⟨node, rfl, hnode, hexceeds, hnext⟩
  simp [replaceLast]
  exact operandAt_binary hleft hlevel hassociativity hadmits hpower (fun h => absurd h hdot)
    (.inr ⟨node, rfl, hnode, hexceeds, hnext⟩)

theorem satisfies_range {level : PrecedenceLevel}
    (hlevel : level ∈ Precedence.levelOf? (setting.stream.kind cursor.position))
    (hassociativity : level.associativity = .left)
    (hadmits : left.Admits level.power) (hpower : power < level.power) :
    ((range level.power).run expand setting [left] cursor).Satisfies True
      (OperandAt setting.stream power) := by
  simp only [range, satisfies_byOperand]
  split
  · simp
  rename_i hrange
  rw [isRange_ofNodes] at hrange
  simp [replaceLast, Node.ofTokenAs, ifStartsExpression]
  split
  · simp
    refine (hcalls (.expression level.power) _ _ _ rfl).imp ?_
    rintro _ after ⟨node, rfl, hnode, hexceeds, hnext⟩
    simp [replaceLast]
    exact operandAt_binary hleft hlevel hassociativity hadmits hpower (fun _ => hrange)
      (.inr ⟨node, rfl, hnode, hexceeds, hnext⟩)
  · simp
    exact operandAt_binary hleft hlevel hassociativity hadmits hpower (fun _ => hrange)
      (.inl rfl)

theorem satisfies_operation {kind : TokenKind} {operation : BindingPower → Rule}
    (hkind : setting.stream.kind cursor.position = kind) (hown : Precedence.power? kind = some own)
    (hoperation : operation? kind = some operation) (hadmits : left.Admits own)
    (hpower : power < own) :
    ((operation own).run expand setting [left] cursor).Satisfies True
      (OperandAt setting.stream power) := by
  cases operatesBy_of_operation? hoperation with
  | assignment =>
    obtain rfl := Option.some.inj hown
    exact satisfies_assignment hcalls hleft hpower
  | plusEquals =>
    obtain rfl := Option.some.inj hown
    exact satisfies_assignment hcalls hleft hpower
  | cast =>
    obtain rfl := Option.some.inj hown
    exact satisfies_cast hcalls hleft hadmits hpower
  | range =>
    obtain rfl := Option.some.inj hown
    have hlevel : Precedence.levelOf? (setting.stream.kind cursor.position) =
        some ⟨"range", .range, .left, [.dotDot]⟩ := by rw [hkind]; rfl
    exact satisfies_range hcalls hleft hlevel rfl hadmits hpower
  | member =>
    obtain rfl := Option.some.inj hown
    exact satisfies_member hleft hadmits
  | optionalChain =>
    obtain rfl := Option.some.inj hown
    exact satisfies_optionalChain hleft hadmits
  | index =>
    obtain rfl := Option.some.inj hown
    exact satisfies_index hcalls hleft hadmits
  | functionCall =>
    obtain rfl := Option.some.inj hown
    exact satisfies_functionCall hcalls hleft hadmits
  | matchExpression =>
    obtain rfl := Option.some.inj hown
    exact satisfies_matchExpression hcalls hleft hadmits
  | binary hlevel hassociativity hrange =>
    obtain rfl := Option.some.inj ((Precedence.power?_eq kind _ hlevel).symm.trans hown)
    subst hkind
    exact satisfies_binary hcalls hleft hlevel hassociativity hadmits hpower hrange

end Grammar

namespace Nonterminal

theorem obeys_unary (hcalls : AllObey expand) :
    unary.Obeys setting nodes cursor (unary.rule.run expand setting nodes cursor) := by
  rintro rfl
  simp [Grammar.unary, Node.ofTokenAs, replaceLast]
  refine (hcalls (.expression .unary) _ _ _ rfl).imp ?_
  rintro _ after ⟨node, rfl, hnode, hexceeds, hnext⟩
  simp [replaceLast]
  intro power
  refine ⟨_, rfl, ?_, ⟨by simp, by simp, by simp⟩, fun own hown =>
    ⟨?_, fun _ => hnext own hown, by simp⟩⟩
  · simp only [Node.throughout_cons, Node.throughout_nil, and_true] at hnode ⊢
    refine ⟨Node.keepsPrecedence_unary hexceeds, ?_⟩
    simp [Node.ofChildren, hnode]
  · simp [Node.level?]

theorem isForm_of_leadingForm? {kind : TokenKind} {form : Nonterminal}
    (h : Grammar.leadingForm? kind = some form) : form = .unary ∨ form.isForm := by
  revert h
  fun_cases Grammar.leadingForm? kind <;> rintro ⟨⟩ <;> simp [isForm]

theorem AllObey.frames (hcalls : AllObey expand) {name : Nonterminal}
    (h : ∀ power, name ≠ .expression power ∧ name ≠ .operators power ∧ name ≠ .unary) :
    name.Frames nodes (expand name setting nodes cursor) := by
  have hobeys := hcalls name setting nodes cursor
  cases name with
  | expression power => exact absurd rfl (h power).1
  | operators power => exact absurd rfl (h power).2.1
  | unary => exact absurd rfl (h .default).2.2
  | _ => exact hobeys

theorem obeys_expression (hcalls : AllObey expand) (power : BindingPower) :
    (expression power).Obeys setting nodes cursor
      ((expression power).rule.run expand setting nodes cursor) := by
  rintro rfl
  simp only [rule, Grammar.expression, Rule.satisfies_onKind]
  split
  · rename_i form hform
    simp only [Rule.satisfies_steps_cons, Rule.satisfies_steps_singleton, Rule.satisfies_call]
    have hoperand : (expand form setting [] (cursor.examineHere setting.stream)).Satisfies True
        (OperandAt setting.stream power) := by
      rcases isForm_of_leadingForm? hform with rfl | hform
      · exact (hcalls .unary _ _ _ rfl).imp fun h => h power
      · have hframes :
            form.Frames [] (expand form setting [] (cursor.examineHere setting.stream)) :=
          hcalls.frames fun power => by
            refine ⟨?_, ?_, ?_⟩ <;> rintro rfl <;> contradiction
        exact ((hframes.keeps Node.throughout_nil).and (hframes.tight hform rfl)).imp fun h =>
          h.2.operandAt h.1
    exact hoperand.imp fun h => hcalls (.operators power) _ _ _ h
  · simp

theorem obeys_operators (hcalls : AllObey expand) (power : BindingPower) :
    (operators power).Obeys setting nodes cursor
      ((operators power).rule.run expand setting nodes cursor) := by
  rintro ⟨left, rfl, hleft, hexceeds, hadmits⟩
  have hends (h : ∀ own, setting.stream.operatorPower? cursor.position = some own → own ≤ power) :
      ExpressionAt setting.stream power [left] cursor := ⟨left, rfl, hleft, hexceeds, h⟩
  simp only [rule, Grammar.operators, Rule.satisfies_onKind]
  have hpower (own : BindingPower) :
      setting.stream.operatorPower? cursor.position = some own ↔ _ :=
    TokenStream.operatorPower?_eq_some_iff
  generalize hkind : setting.stream.kind cursor.position = kind at hpower ⊢
  rcases hown : Precedence.power? kind with _ | own
  · exact hends fun other hother => by simp [hpower, hown] at hother
  obtain ⟨operation, hoperation⟩ :=
    Option.isSome_iff_exists.mp (Grammar.operation?_isSome kind (by simp [hown]))
  have hnext (here : Cursor) (hhere : here.position = cursor.position)
      (hpower : setting.stream.operatorPower? cursor.position = some own) (hlt : power < own) :
      ((Rule.steps [operation own, .call (.operators power)]).run expand setting [left]
        here).Satisfies True (ExpressionAt setting.stream power) := by
    rw [Rule.satisfies_steps_cons]
    exact (Grammar.satisfies_operation hcalls hleft (hhere ▸ hkind) hown hoperation
      (hadmits own hpower) hlt).imp fun h => hcalls (.operators power) _ _ _ h
  simp only [hoperation]
  by_cases hle : own ≤ power
  · simp only [hle, if_true]
    refine hends fun other hother => ?_
    obtain rfl : own = other := Option.some.inj (hown.symm.trans ((hpower other).mp hother).2)
    exact hle
  simp only [hle, if_false]
  by_cases hdot : kind = .dot
  · simp only [hdot, if_true, Rule.satisfies_look]
    by_cases hfollowing : setting.stream.kind (cursor.position + 1) = .openCurly
    · -- a dot before a brace is left for what comes after the expression
      simp only [Cursor.examineHere_position, hfollowing, if_true]
      exact hends fun other hother => absurd ⟨hdot, hfollowing⟩ ((hpower other).mp hother).1
    · simp only [Cursor.examineHere_position, hfollowing, if_false]
      exact hnext _ rfl ((hpower own).mpr ⟨fun h => hfollowing h.2, hown⟩) (Nat.not_le.mp hle)
  · simp only [hdot, if_false]
    exact hnext _ rfl ((hpower own).mpr ⟨fun h => hdot h.1, hown⟩) (Nat.not_le.mp hle)

theorem prefix_arguments (hcalls : AllObey expand) :
    ((list .arguments).rule.run expand setting nodes cursor).Satisfies True
      fun after _ => nodes <+: after := by
  simp only [rule, Grammar.list, Rule.satisfies_onKind]
  split
  · simp
  simp only [Grammar.element, Grammar.defaultExpression, Rule.satisfies_steps_cons,
    Rule.satisfies_inField, Rule.satisfies_child]
  refine (hcalls (.expression .default) _ _ _ rfl).imp ?_
  rintro _ after ⟨node, rfl, -⟩
  rw [replaceLast_concat]
  simp
  intro _
  refine ((hcalls (.list .arguments) _ _ _).grows rfl).imp fun h => ?_
  exact (List.prefix_append _ _).trans h

theorem prefix_arms (hcalls : AllObey expand) :
    (arms.rule.run expand setting nodes cursor).Satisfies True fun after _ => nodes <+: after := by
  simp only [rule, Grammar.arms, Rule.satisfies_onKind]
  split
  · simp
  · simp
  rw [Rule.satisfies_steps_cons]
  have harms (more : List Node) (after : Cursor) :
      (expand .arms setting (nodes ++ more) after).Satisfies True fun after _ => nodes <+: after :=
    ((hcalls .arms _ _ _).grows rfl).imp fun h => (List.prefix_append _ _).trans h
  exact Rule.satisfies_recover (.of_forall harms) fun _ _ => harms _

theorem frames_rule (hcalls : AllObey expand) {name : Nonterminal}
    (h : ∀ power, name ≠ .expression power ∧ name ≠ .operators power ∧ name ≠ .unary) :
    name.Frames nodes (name.rule.run expand setting nodes cursor) where
  keeps := (name.plain_rule h).satisfies hcalls (by simp)
  tight hform hnodes := (makesOperand_rule hform).satisfies hcalls fun _ => hnodes
  grows hlist := by
    cases name with
    | arms => exact prefix_arms hcalls
    | list listing =>
      cases listing with
      | arguments => exact prefix_arguments hcalls
      | _ => contradiction
    | _ => contradiction

theorem allObey_run (depth : Nat) : AllObey (run depth) := by
  induction depth with
  | zero =>
    intro name setting nodes cursor
    cases name with
    | expression | unary => exact fun _ => trivial
    | operators => exact fun _ => trivial
    | _ => exact ⟨fun _ => trivial, fun _ _ => trivial, fun _ => trivial⟩
  | succ depth ih =>
    intro name setting nodes cursor
    cases name with
    | expression power => exact obeys_expression ih power
    | operators power => exact obeys_operators ih power
    | unary => exact obeys_unary ih
    | _ => exact frames_rule ih (by simp)

theorem allObey_action : AllObey action :=
  fun name setting => allObey_run (callDepth setting.stream) name setting

end Nonterminal

theorem Setting.Items.keepsPrecedence {dialect : Dialect} {start : Nat}
    {items : List (Node × ItemExtent)} (h : (top stream dialect).Items start items) :
    Throughout KeepsPrecedence (items.map (·.1)) := by
  have hitem (cursor : Cursor) : (Rule.itemOrError.run Nonterminal.action (top stream dialect) []
      cursor).Satisfies True fun nodes _ => Throughout KeepsPrecedence nodes := by
    have hplain : Rule.itemOrError.Plain true := by simp [Rule.itemOrError]
    exact hplain.satisfies Nonterminal.allObey_action (fun _ => rfl) Node.throughout_nil
  induction h with
  | finish => exact Node.throughout_nil
  | @item start _ _ _ _ read _ ih =>
    have hdone := hitem (Cursor.resetFurthest ⟨start, start⟩)
    rw [(parseItem_eq_done_iff.mp read).1] at hdone
    exact Node.throughout_append.mpr ⟨hdone, ih⟩

namespace SyntaxTree

/-- Every node of the tree of a source that is not too long keeps the precedence. -/
theorem keepsPrecedence_parse (source : String) (dialect : Dialect)
    (h : Text.byteLength source.toList ≤ maxSourceLength) :
    ∃ tree, parse source dialect = .ok tree ∧
      ∀ node ∈ tree.root.preorder, node.KeepsPrecedence := by
  obtain ⟨stream, items, -, hitems, hparse⟩ := parse_eq_ok dialect h
  have hroot : NodeKind.sourceFile ∉ Node.operations := by decide
  exact ⟨_, hparse, forall_mem_preorder_ofItems.mpr
    ⟨Node.keepsPrecedence_of_kind hroot, hitems.keepsPrecedence⟩⟩

/-- A range that is open at its end and one that is not, around a cast and a sum. -/
theorem keepsPrecedence_parse_ranges :
    Text.byteLength "const a = -b as i32 + c[d..]..2 * e".toList ≤ maxSourceLength ∧
      ∃ tree, parse "const a = -b as i32 + c[d..]..2 * e" .extended = .ok tree ∧
        ∀ node ∈ tree.root.preorder, node.KeepsPrecedence :=
  ⟨by decide, keepsPrecedence_parse "const a = -b as i32 + c[d..]..2 * e" .extended (by decide)⟩

end SyntaxTree

end LosslessSyntax
