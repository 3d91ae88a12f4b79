import LosslessSyntax.Proofs.Grammar.Sound
import LosslessSyntax.Proofs.Execution
import LosslessSyntax.Proofs.Precedence.Operands
/-!
Most of the grammar has nothing to do with precedence: it puts nodes together that keep it, and
makes none with operands. Expressions are read into fragments of their own there, where their first
operand is all that an operator finds.
-/
namespace LosslessSyntax

open Node (Throughout KeepsPrecedence)

/-- How tightly the operator at an index binds, if there is one. A dot before a brace is none. -/
def TokenStream.operatorPower? (stream : TokenStream) (index : Nat) : Option BindingPower :=
  if stream.kind index = .dot ∧ stream.kind (index + 1) = .openCurly then none
  else Precedence.power? (stream.kind index)

namespace TokenStream

variable {stream : TokenStream} {index : Nat} {own : BindingPower}

theorem operatorPower?_eq_some_iff :
    stream.operatorPower? index = some own ↔
      ¬(stream.kind index = .dot ∧ stream.kind (index + 1) = .openCurly) ∧
        Precedence.power? (stream.kind index) = some own := by
  unfold operatorPower?
  split <;> simp [*]

theorem operatorPower?_of_kind {kind : TokenKind} (hkind : stream.kind index = kind)
    (hdot : kind ≠ .dot) : stream.operatorPower? index = Precedence.power? kind := by
  rw [operatorPower?, hkind]
  exact if_neg fun h => hdot h.1

theorem default_lt_of_operatorPower? (h : stream.operatorPower? index = some own) :
    .default < own := by
  have hpowers : ∀ kind, ∀ own ∈ Precedence.power? kind, .default < own := by decide
  exact hpowers _ _ (operatorPower?_eq_some_iff.mp h).2

end TokenStream

theorem Grammar.isRange_ofNodes {node : Node} :
    isRange (Operand.ofNodes [node]) ↔ node.IsRange := by
  have htoken : ∀ kind : NodeKind, kind.token? = some .dotDot ↔ kind = .token .dotDot := by
    intro kind
    cases kind <;> simp [NodeKind.token?]
  simp [isRange, Operand.ofNodes, Node.IsRange, Node.operator?, Option.bind_eq_some_iff, htoken]

/-- The fragment is one expression that binds tighter than a power, and an operator behind it may
have it as its left operand. -/
def OperandAt (stream : TokenStream) (power : BindingPower) (nodes : List Node) (cursor : Cursor) :
    Prop :=
  ∃ node : Node, nodes = [node] ∧ Throughout KeepsPrecedence [node] ∧ node.Exceeds power ∧
    ∀ own, stream.operatorPower? cursor.position = some own → node.Admits own

/-- The fragment is one expression that binds tighter than a power, and an operator behind it does
not. -/
def ExpressionAt (stream : TokenStream) (power : BindingPower) (nodes : List Node)
    (cursor : Cursor) : Prop :=
  ∃ node : Node, nodes = [node] ∧ Throughout KeepsPrecedence [node] ∧ node.Exceeds power ∧
    ∀ own, stream.operatorPower? cursor.position = some own → own ≤ power

def NodeKind.loose : List NodeKind :=
  [.binaryExpression, .unaryExpression, .castExpression, .assignmentExpression]

def IsTight (nodes : List Node) : Prop := ∃ node : Node, nodes = [node] ∧ node.kind ∉ NodeKind.loose

namespace Nonterminal

def isForm : Nonterminal → Bool
  | .primary | .typeNameExpression | .anonymousStruct | .grouping | .arrayLiteral | .conditional
  | .ifExpression | .lambda => true
  | _ => false

def isList : Nonterminal → Bool
  | .list .arguments | .arms => true
  | _ => false

/-- What a nonterminal that is no expression does with precedence. -/
structure Frames (name : Nonterminal) (nodes : List Node) (outcome : Outcome (List Node)) :
    Prop where
  keeps : Throughout KeepsPrecedence nodes →
    outcome.Satisfies True fun after _ => Throughout KeepsPrecedence after
  tight : name.isForm → nodes = [] → outcome.Satisfies True fun after _ => IsTight after
  grows : name.isList → outcome.Satisfies True fun after _ => nodes <+: after

def Obeys (setting : Setting) (nodes : List Node) (cursor : Cursor)
    (outcome : Outcome (List Node)) : Nonterminal → Prop
  | .expression power =>
    nodes = [] → outcome.Satisfies True (ExpressionAt setting.stream power)
  | .operators power =>
    OperandAt setting.stream power nodes cursor →
      outcome.Satisfies True (ExpressionAt setting.stream power)
  | .unary =>
    nodes = [] → outcome.Satisfies True fun nodes cursor =>
      ∀ power, OperandAt setting.stream power nodes cursor
  | name => name.Frames nodes outcome

def AllObey (expand : Nonterminal → Action) : Prop :=
  ∀ (name : Nonterminal) (setting : Setting) (nodes : List Node) (cursor : Cursor),
    name.Obeys setting nodes cursor (expand name setting nodes cursor)

end Nonterminal

namespace Rule

/-- The rule makes no nodes with operands itself, and calls for expressions only in fragments of
their own. `fresh` tells whether its fragment is one that has only just begun. -/
def Plain : Bool → Rule → Prop
  | fresh, .seq first next => first.Plain fresh ∧ next.Plain false
  | _, .take kind => ∀ renamed, kind = some renamed → renamed ∉ Node.operations
  | fresh, .look _ next => ∀ kind, (next kind).Plain fresh
  | _, .wrap kind => kind ∉ Node.operations
  | _, .apart rule => rule.Plain true
  | fresh, .call name =>
    match name with
    | .expression _ => fresh
    | .operators _ | .unary => False
    | _ => True
  | fresh, .within _ rule => rule.Plain fresh
  | fresh, .byContext next => ∀ context, (next context).Plain fresh
  | fresh, .byDialect next => ∀ dialect, (next dialect).Plain fresh
  | fresh, .byOperand next => ∀ operand, (next operand).Plain fresh
  | _, .recover _ rule => rule.Plain true
  | fresh, .attempt trial next otherwise =>
    trial.Plain fresh ∧ next.Plain false ∧ otherwise.Plain fresh
  | fresh, .naming rule => rule.Plain fresh
  | _, .empty | _, .fail _ | _, .label _ | _, .labelInner _ => True

/-- The rule ends with the making of one node, of a kind that any operator may follow. -/
def MakesOperand : Bool → Rule → Prop
  | _, .seq _ next => next.MakesOperand false
  | fresh, .take kind => fresh ∧ kind = none
  | fresh, .look _ next => ∀ kind, (next kind).MakesOperand fresh
  | _, .wrap kind => kind ∉ NodeKind.loose
  | fresh, .call name => fresh ∧ name.isForm
  | fresh, .within _ rule => rule.MakesOperand fresh
  | fresh, .byContext next => ∀ context, (next context).MakesOperand fresh
  | fresh, .byDialect next => ∀ dialect, (next dialect).MakesOperand fresh
  | fresh, .attempt _ next otherwise => next.MakesOperand false ∧ otherwise.MakesOperand fresh
  | _, .fail _ => True
  | _, _ => False

end Rule

namespace Rule

attribute [simp] Plain

variable {fresh : Bool} {rule next yes no : Rule} {rules : List Rule} {kind : TokenKind}
  {field : Field}

@[simp] theorem plain_steps_singleton : (steps [rule]).Plain fresh ↔ rule.Plain fresh := Iff.rfl

@[simp] theorem plain_steps_cons :
    (steps (rule :: next :: rules)).Plain fresh ↔
      rule.Plain fresh ∧ (steps (next :: rules)).Plain false := Iff.rfl

@[simp] theorem plain_onKind {next : TokenKind → Rule} :
    (onKind next).Plain fresh ↔ ∀ kind, (next kind).Plain fresh := Iff.rfl

@[simp] theorem plain_ite {c : Prop} [Decidable c] :
    (if c then yes else no).Plain fresh ↔ (c → yes.Plain fresh) ∧ (¬c → no.Plain fresh) := by
  split <;> simp [*]

@[simp] theorem plain_ifAt :
    (ifAt kind yes no).Plain fresh ↔ yes.Plain fresh ∧ no.Plain fresh := by
  simp only [ifAt, plain_onKind, plain_ite]
  refine ⟨fun h => ⟨(h kind).1 rfl, ?_⟩, fun h found => ⟨fun _ => h.1, fun _ => h.2⟩⟩
  by_cases hkind : kind = .eof
  · exact (h .comma).2 (by simp [hkind])
  · exact (h .eof).2 (Ne.symm hkind)

@[simp] theorem plain_inField : (inField field rule).Plain fresh ↔ rule.Plain fresh :=
  and_iff_left trivial

@[simp] theorem plain_child {name : Nonterminal} :
    (child name).Plain fresh ↔ (Rule.call name).Plain true := Iff.rfl

@[simp] theorem plain_expectAs {what : String} : (expectAs kind what).Plain fresh := by
  simp [expectAs]

@[simp] theorem plain_expect : (expect kind).Plain fresh := plain_expectAs

@[simp] theorem plain_optional : (Rule.optional kind).Plain fresh := by simp [Rule.optional]

end Rule

namespace Grammar

variable {fresh : Bool} {rule yes no : Rule}

@[simp] theorem plain_anyType : anyType.Plain fresh := trivial

@[simp] theorem plain_typeField : typeField.Plain fresh := ⟨trivial, trivial⟩

@[simp] theorem plain_innerExpression : innerExpression.Plain fresh := rfl

@[simp] theorem plain_defaultExpression : defaultExpression.Plain fresh := rfl

@[simp] theorem plain_branch : branch.Plain fresh := by simp [branch]

@[simp] theorem plain_returnType : returnType.Plain fresh := by
  simp [returnType, ifStartsReturnType]

@[simp] theorem plain_typeAnnotation : typeAnnotation.Plain fresh := by
  unfold typeAnnotation
  simp

@[simp] theorem plain_structFields : structFields.Plain fresh := by simp [structFields]

@[simp] theorem plain_structLiteral : structLiteral.Plain fresh := by
  simp [structLiteral, Node.operations]

@[simp] theorem plain_ifStartsExpression :
    (ifStartsExpression yes no).Plain fresh ↔ ∀ kind : TokenKind, ∀ dialect,
      (startsExpression dialect kind → yes.Plain fresh) ∧
        (startsExpression dialect kind = false → no.Plain fresh) := by
  simp [ifStartsExpression]

theorem plain_unlessBodyEnds (h : rule.Plain fresh) : (unlessBodyEnds rule).Plain fresh := by
  simp only [unlessBodyEnds, Rule.plain_onKind]
  intro kind
  split <;> simp [ifItemStarts, h]

end Grammar

namespace Nonterminal

open Grammar

theorem plain_rule (name : Nonterminal)
    (h : ∀ power, name ≠ .expression power ∧ name ≠ .operators power ∧ name ≠ .unary) :
    name.rule.Plain false := by
  cases name with
  | item =>
    simp [rule, Grammar.item, directive]
    intro kind
    fun_cases itemForm? kind <;> simp
  | functionDefinition => simp [rule, Grammar.functionDefinition, Node.operations]
  | structDefinition =>
    simp [rule, Grammar.structDefinition, genericParameters, memberBody, Node.operations]
    intro kind
    split <;> simp
  | enumDefinition =>
    simp [rule, Grammar.enumDefinition, genericParameters, memberBody, Node.operations]
  | constDeclaration => simp [rule, Grammar.constDeclaration, Node.operations]
  | importDeclaration => simp [rule, Grammar.importDeclaration, Node.operations]
  | pathSteps => simp [rule, Grammar.pathSteps]
  | testBlock =>
    simp [rule, Grammar.testBlock]
    intro operand
    split <;> simp [Node.operations]
  | parameterList => simp [rule, Grammar.parameterList, Node.operations]
  | members body =>
    refine plain_unlessBodyEnds ?_
    cases body
    · simp [memberOf, structField, Node.operations]
    · simp [memberOf, enumVariant, variantParameters, variantValue, Node.operations]
  | block => simp [rule, Grammar.block, Node.operations]
  | statements => exact plain_unlessBodyEnds (by simp)
  | statement =>
    simp [rule, Grammar.statement]
    intro kind
    fun_cases statementForm? kind <;> simp [Node.operations]
  | variableDeclaration =>
    simp [rule, Grammar.variableDeclaration]
    intro kind
    split <;> simp [Node.operations]
  | returnStatement => simp [rule, Grammar.returnStatement, Node.operations]
  | deferStatement => simp [rule, Grammar.deferStatement, Node.operations]
  | ifStatement => simp [rule, Grammar.ifStatement]
  | forStatement => simp [rule, Grammar.forStatement, forHeader, Node.operations]
  | loopStatement => simp [rule, Grammar.loopStatement, Node.operations]
  | jump => simp [rule, Grammar.jump]
  | pattern =>
    have hpayload : variantPayload.Plain false := by simp [variantPayload, Node.operations]
    simp [rule, Grammar.pattern]
    intro kind
    split <;> simp [variantPattern, bareVariant, hpayload, Node.operations]
  | expression power => exact absurd rfl (h power).1
  | operators power => exact absurd rfl (h power).2.1
  | primary =>
    simp [rule, Grammar.primary]
    intro kind
    split <;> simp
  | typeNameExpression =>
    simp [rule, Grammar.typeNameExpression]
    refine fun _ _ kind => ?_
    split <;> simp [Node.operations]
  | anonymousStruct => simp [rule, Grammar.anonymousStruct, Node.operations]
  | grouping => simp [rule, Grammar.grouping, Node.operations]
  | arrayLiteral => simp [rule, Grammar.arrayLiteral, Node.operations]
  | unary => exact absurd rfl (h .default).2.2
  | conditional =>
    have halternative (context : Context) : (alternative context).Plain false := by
      simp [alternative]
      intro kind
      split <;> simp
    simp [rule, Grammar.conditional, halternative]
    intro context
    split <;> simp [Node.operations]
  | ifExpression => simp [rule, Grammar.ifExpression]
  | lambda => simp [rule, Grammar.lambda, Node.operations]
  | arms =>
    simp [rule, Grammar.arms]
    intro kind
    split <;> simp [matchArm, Node.operations]
  | type power =>
    simp [rule, Grammar.type]
    intro kind
    fun_cases typeForm? kind <;> simp
  | suffixes power =>
    simp [rule, Grammar.suffixes]
    intro kind
    fun_cases suffixPower? kind <;> simp [suffix?, Node.operations]
  | primitiveType => simp [rule, Grammar.primitiveType]
  | genericTypeParameter => simp [rule, Grammar.genericTypeParameter, Node.operations]
  | referenceType => simp [rule, Grammar.referenceType, Node.operations]
  | arrayType => simp [rule, Grammar.arrayType, Node.operations]
  | functionType => simp [rule, Grammar.functionType, Node.operations]
  | tupleType => simp [rule, Grammar.tupleType, Node.operations]
  | namedType => simp [rule, Grammar.namedType, Node.operations]
  | genericArguments => simp [rule, Grammar.genericArguments, Node.operations]
  | list listing =>
    simp [rule, Grammar.list]
    intro kind
    cases listing <;> simp [element, parameter, fieldEntry, signatureType, Node.operations]
  | more continuation =>
    simp [rule, Grammar.more]
    cases continuation <;> simp [continuationElement]

end Nonterminal

namespace Rule

attribute [simp] MakesOperand

variable {fresh : Bool} {rule next yes no : Rule} {rules : List Rule} {kind : TokenKind}

@[simp] theorem makesOperand_steps_singleton :
    (steps [rule]).MakesOperand fresh ↔ rule.MakesOperand fresh := Iff.rfl

@[simp] theorem makesOperand_steps_cons :
    (steps (rule :: next :: rules)).MakesOperand fresh ↔
      (steps (next :: rules)).MakesOperand false := Iff.rfl

@[simp] theorem makesOperand_onKind {next : TokenKind → Rule} :
    (onKind next).MakesOperand fresh ↔ ∀ kind, (next kind).MakesOperand fresh := Iff.rfl

@[simp] theorem makesOperand_ite {c : Prop} [Decidable c] :
    (if c then yes else no).MakesOperand fresh ↔
      (c → yes.MakesOperand fresh) ∧ (¬c → no.MakesOperand fresh) := by
  split <;> simp [*]

end Rule

theorem Nonterminal.makesOperand_rule {name : Nonterminal} (h : name.isForm) :
    name.rule.MakesOperand true := by
  cases name with
  | primary =>
    simp [rule, Grammar.primary]
    intro kind
    split <;> simp [Grammar.structLiteral, NodeKind.loose]
  | typeNameExpression =>
    simp [rule, Grammar.typeNameExpression]
    refine fun _ _ kind => ?_
    split <;> simp [Grammar.structLiteral, NodeKind.loose]
  | anonymousStruct => simp [rule, Grammar.anonymousStruct, NodeKind.loose]
  | grouping => simp [rule, Grammar.grouping, Rule.ifAt, NodeKind.loose]
  | arrayLiteral => simp [rule, Grammar.arrayLiteral, NodeKind.loose]
  | conditional =>
    simp [rule, Grammar.conditional]
    intro context
    split <;> simp [NodeKind.loose]
  | ifExpression => simp [rule, Grammar.ifExpression, isForm]
  | lambda => simp [rule, Grammar.lambda, NodeKind.loose]
  | _ => contradiction

section Runs

variable {expand : Nonterminal → Action} {setting : Setting} {nodes : List Node} {cursor : Cursor}
  {fresh : Bool} {rule : Rule}

theorem Node.throughout_replaceLast {change : Node → List Node}
    (hchange : ∀ node, Throughout KeepsPrecedence [node] → Throughout KeepsPrecedence (change node))
    (h : Throughout KeepsPrecedence nodes) :
    Throughout KeepsPrecedence (replaceLast change nodes) := by
  fun_induction replaceLast change nodes with
  | case1 => exact h
  | case2 node => exact hchange node h
  | case3 node rest _ ih =>
    simp only [throughout_cons] at h ⊢
    exact ⟨h.1, h.2.1, ih h.2.2⟩

theorem Node.throughout_label (h : Throughout KeepsPrecedence nodes) (field : Field) :
    Throughout KeepsPrecedence (replaceLast (fun node => [node.withField field]) nodes) :=
  throughout_replaceLast (by simp +contextual) h

theorem Node.throughout_ofTokenAs {kind : Option NodeKind} (token : Token)
    (h : ∀ renamed, kind = some renamed → renamed ∉ operations) :
    Throughout KeepsPrecedence [ofTokenAs kind token] := by
  cases kind with
  | none => simp [ofTokenAs, keepsPrecedence_ofToken]
  | some renamed => simpa [ofTokenAs] using keepsPrecedence_of_kind (h renamed rfl)

theorem Rule.Plain.satisfies (hcalls : Nonterminal.AllObey expand) (h : rule.Plain fresh)
    (hfresh : fresh → nodes = []) (hnodes : Throughout KeepsPrecedence nodes) :
    (rule.run expand setting nodes cursor).Satisfies True fun nodes _ =>
      Throughout KeepsPrecedence nodes := by
  induction rule generalizing fresh setting nodes cursor with
  | empty => exact hnodes
  | seq first next ihFirst ihNext =>
    rw [satisfies_seq]
    exact (ihFirst h.1 hfresh hnodes).imp fun hmiddle => ihNext h.2 (by simp) hmiddle
  | take kind =>
    rw [satisfies_take, Node.throughout_append]
    exact ⟨hnodes, Node.throughout_ofTokenAs _ h⟩
  | look distance next ih => exact ih _ (h _) hfresh hnodes
  | fail => trivial
  | label field =>
    rw [satisfies_label]
    exact Node.throughout_label hnodes field
  | labelInner field =>
    rw [satisfies_labelInner]
    refine Node.throughout_replaceLast (fun node hnode => ?_) hnodes
    exact hnode.innerInField (fun _ _ => Node.keepsPrecedence_withField.mpr) field
  | wrap kind =>
    rw [satisfies_wrap, Node.throughout_cons]
    exact ⟨Node.keepsPrecedence_of_kind h, hnodes, Node.throughout_nil⟩
  | apart rule ih =>
    rw [satisfies_apart]
    exact (ih h (by simp) Node.throughout_nil).imp fun hmore =>
      Node.throughout_append.mpr ⟨hnodes, hmore⟩
  | call name =>
    have hobeys := hcalls name setting nodes cursor
    rw [satisfies_call]
    cases name with
    | expression power =>
      refine (hobeys (hfresh h)).imp ?_
      rintro _ _ ⟨node, rfl, hnode, -⟩
      exact hnode
    | operators | unary => contradiction
    | _ => exact hobeys.keeps hnodes
  | within context rule ih => exact ih h hfresh hnodes
  | byContext next ih => exact ih _ (h _) hfresh hnodes
  | byDialect next ih => exact ih _ (h _) hfresh hnodes
  | byOperand next ih => exact ih _ (h _) hfresh hnodes
  | recover recovery rule ih =>
    refine satisfies_recover ?_ fun stop diagnostic after => ?_
    · exact (ih h (by simp) Node.throughout_nil).imp fun hmore =>
        Node.throughout_append.mpr ⟨hnodes, hmore⟩
    · simp only [Node.throughout_append, Node.throughout_cons, Node.throughout_nil, and_true]
      have herror : NodeKind.error ∉ Node.operations := by decide
      exact ⟨hnodes, Node.keepsPrecedence_of_kind herror,
        Node.throughout_map_ofToken Node.keepsPrecedence_ofToken _⟩
  | attempt trial next otherwise ihTrial ihNext ihOtherwise =>
    exact satisfies_attempt
      ((ihTrial h.1 hfresh hnodes).imp fun hmiddle => ihNext h.2.1 (by simp) hmiddle)
      fun furthest => ihOtherwise h.2.2 hfresh hnodes
  | naming rule ih => exact ih h hfresh hnodes

theorem Rule.MakesOperand.satisfies (hcalls : Nonterminal.AllObey expand)
    (h : rule.MakesOperand fresh) (hfresh : fresh → nodes = []) :
    (rule.run expand setting nodes cursor).Satisfies True fun nodes _ => IsTight nodes := by
  induction rule generalizing fresh setting nodes cursor with
  | seq first next ihFirst ihNext =>
    rw [satisfies_seq]
    exact .of_forall fun _ _ => ihNext h (by simp)
  | take kind =>
    have hkinds : ∀ kind, NodeKind.ofToken kind ∉ NodeKind.loose := by decide
    obtain ⟨hhere, rfl⟩ := h
    rw [satisfies_take, hfresh hhere]
    exact ⟨_, rfl, hkinds _⟩
  | look distance next ih => exact ih _ (h _) hfresh
  | fail => trivial
  | wrap kind => exact ⟨_, rfl, h⟩
  | call name =>
    have hobeys := hcalls name setting nodes cursor
    obtain rfl := hfresh h.1
    rw [satisfies_call]
    cases name with
    | primary | typeNameExpression | anonymousStruct | grouping | arrayLiteral | conditional
    | ifExpression | lambda =>
      exact hobeys.tight rfl rfl
    | _ => exact absurd h.2 Bool.false_ne_true
  | within context rule ih => exact ih h hfresh
  | byContext next ih => exact ih _ (h _) hfresh
  | byDialect next ih => exact ih _ (h _) hfresh
  | attempt trial next otherwise ihTrial ihNext ihOtherwise =>
    exact satisfies_attempt (.of_forall fun _ _ => ihNext h.1 (by simp))
      fun furthest => ihOtherwise h.2 hfresh
  | _ => contradiction

end Runs

end LosslessSyntax
