import LosslessSyntax.Proofs.Fragment
/-!
Operands: which expressions can stand on which side of an operator without parentheses, as the table
of operator levels has it.
-/
namespace LosslessSyntax

theorem Precedence.power_between : ∀ kind, ∀ level ∈ levelOf? kind, level.associativity = .left →
    .assignment < level.power ∧ level.power < .cast := by
  decide

theorem Precedence.ofToken_of_levelOf? : ∀ kind, ∀ level ∈ levelOf? kind,
    level.associativity = .left → NodeKind.ofToken kind = .token kind := by
  decide

theorem Precedence.power?_eq : ∀ kind, ∀ level ∈ levelOf? kind, power? kind = some level.power := by
  decide

theorem Precedence.lt_member {kind : TokenKind} {level : PrecedenceLevel} {own : BindingPower}
    (hlevel : level ∈ levelOf? kind) (hassociativity : level.associativity = .left)
    (hown : power? kind = some own) : own < .member := by
  obtain rfl : level.power = own := Option.some.inj ((power?_eq kind level hlevel).symm.trans hown)
  exact Nat.lt_trans (power_between kind level hlevel hassociativity).2 (by decide)

def NodeKind.token? : NodeKind → Option TokenKind
  | .token kind => some kind
  | _ => none

namespace Node

def operator? (node : Node) : Option TokenKind :=
  (node.childByField? .operator).bind (·.kind.token?)

def level? (node : Node) : Option PrecedenceLevel :=
  if node.kind = .binaryExpression then node.operator?.bind Precedence.levelOf? else none

/-- Whether the right operand of a binary expression is there. A range can do without. -/
def isClosed (node : Node) : Bool := (node.childByField? .right).isSome

def IsClosedBinary (node : Node) : Prop := node.kind = .binaryExpression ∧ node.isClosed

def IsRange (node : Node) : Prop := node.kind = .binaryExpression ∧ node.operator? = some .dotDot

/-- The slot of the operand in an expression whose operator comes last. -/
def trailedSlot? : NodeKind → Option Field
  | .memberExpression | .dereferenceExpression | .optionalChainExpression | .indexExpression =>
    some .object
  | .functionCall => some .function
  | .matchExpression => some .scrutinee
  | _ => none

def operations : List NodeKind :=
  [.binaryExpression, .unaryExpression, .castExpression, .memberExpression, .dereferenceExpression,
    .optionalChainExpression, .indexExpression, .functionCall, .matchExpression]

/-- What the table asks of a node and its operands. -/
structure KeepsPrecedence (node : Node) : Prop where
  /-- The left operand binds at least as tightly as the operator, unless its end is open. -/
  left : node.kind = .binaryExpression → ∃ level left, node.level? = some level ∧
    level.associativity = .left ∧ node.childByField? .left = some left ∧
    left.kind ≠ .assignmentExpression ∧
    ∀ inner, left.level? = some inner → left.isClosed → level.power ≤ inner.power
  /-- The right operand binds tighter than the operator. -/
  right : ∀ level right, node.level? = some level → node.childByField? .right = some right →
    right.kind ≠ .assignmentExpression ∧
    ∀ inner, right.level? = some inner → level.power < inner.power
  /-- Ranges do not chain. -/
  range : node.IsRange → ∀ left, node.childByField? .left = some left → ¬left.IsRange
  unary : node.kind = .unaryExpression → ∃ operand, node.childByField? .operand = some operand ∧
    operand.kind ∉ [.binaryExpression, .castExpression, .assignmentExpression]
  cast : node.kind = .castExpression → ∃ value, node.childByField? .value = some value ∧
    value.kind ∉ [.castExpression, .assignmentExpression] ∧ ¬value.IsClosedBinary
  trailed : ∀ slot, trailedSlot? node.kind = some slot →
    ∃ operand, node.childByField? slot = some operand ∧
      operand.kind ∉ [.unaryExpression, .assignmentExpression] ∧ ¬operand.IsClosedBinary

/-- What is known of an expression that is read at a power: without parentheses it binds tighter. -/
structure Exceeds (node : Node) (power : BindingPower) : Prop where
  binary : node.kind = .binaryExpression →
    ∃ level, node.level? = some level ∧ level.associativity = .left ∧ power < level.power
  cast : node.kind = .castExpression → power < .cast
  assignment : node.kind = .assignmentExpression → power < .assignment

/-- What is known of an expression that an operator of a power follows. -/
structure Admits (node : Node) (own : BindingPower) : Prop where
  binary : ∀ level, node.level? = some level → node.isClosed → own ≤ level.power
  unary : node.kind = .unaryExpression → own ≤ .unary
  assignment : node.kind ≠ .assignmentExpression

theorem level?_eq_none {node : Node} (h : node.kind ≠ .binaryExpression) : node.level? = none :=
  if_neg h

@[simp] theorem keepsPrecedence_withField {node : Node} {field : Field} :
    (node.withField field).KeepsPrecedence ↔ node.KeepsPrecedence :=
  ⟨fun ⟨left, right, range, unary, cast, trailed⟩ => ⟨left, right, range, unary, cast, trailed⟩,
    fun ⟨left, right, range, unary, cast, trailed⟩ => ⟨left, right, range, unary, cast, trailed⟩⟩

section Slots

variable {kind : NodeKind} {offset : UInt32} {node : Node} {nodes : List Node}
  {field slot : Field}

@[simp] theorem kind_ofChildren : (ofChildren kind offset nodes).kind = kind := rfl

@[simp] theorem kind_withField : (node.withField field).kind = node.kind := rfl

@[simp] theorem children_withField : (node.withField field).children = node.children := rfl

@[simp] theorem kind_ofToken (token : Token) : (ofToken token).kind = .ofToken token.kind := rfl

@[simp] theorem childByField?_ofChildren_withField :
    (ofChildren kind offset (node.withField field :: nodes)).childByField? slot =
      if field = slot then some (node.withField field)
      else (ofChildren kind offset nodes).childByField? slot := by
  by_cases h : field = slot <;> simp [childByField?, ofChildren, withField, h]

@[simp] theorem childByField?_ofChildren_nil :
    (ofChildren kind offset []).childByField? slot = none := rfl

end Slots

section Binary

variable {offset : UInt32} {left right : Node} {more : List Node} {token : Token}
  {level : PrecedenceLevel}

theorem operator?_binary (hlevel : level ∈ Precedence.levelOf? token.kind)
    (hassociativity : level.associativity = .left) :
    (ofChildren .binaryExpression offset (left.withField .left ::
      (ofToken token).withField .operator :: more)).operator? = some token.kind := by
  have hkind := Precedence.ofToken_of_levelOf? _ level hlevel hassociativity
  simp [operator?, hkind, NodeKind.token?]

theorem level?_binary (hlevel : level ∈ Precedence.levelOf? token.kind)
    (hassociativity : level.associativity = .left) :
    (ofChildren .binaryExpression offset (left.withField .left ::
      (ofToken token).withField .operator :: more)).level? = some level := by
  rw [level?, if_pos kind_ofChildren, operator?_binary hlevel hassociativity]
  exact hlevel

theorem keepsPrecedence_binary (hlevel : level ∈ Precedence.levelOf? token.kind)
    (hassociativity : level.associativity = .left) (hadmits : left.Admits level.power)
    (hrange : token.kind = .dotDot → ¬left.IsRange)
    (hmore : more = [] ∨ ∃ right : Node, more = [right.withField .right] ∧ right.Exceeds level.power) :
    (ofChildren .binaryExpression offset (left.withField .left ::
      (ofToken token).withField .operator :: more)).KeepsPrecedence := by
  have hpower := Precedence.power_between _ level hlevel hassociativity
  refine ⟨fun _ => ⟨level, left.withField .left, level?_binary hlevel hassociativity,
    hassociativity, by simp, hadmits.assignment, hadmits.binary⟩, ?_, ?_, ?_, ?_, ?_⟩
  · intro own operand hown hoperand
    obtain rfl : level = own := by
      simpa [level?_binary hlevel hassociativity] using hown
    rcases hmore with rfl | ⟨right, rfl, hright⟩
    · simp at hoperand
    obtain rfl : right.withField .right = operand := by simpa using hoperand
    refine ⟨fun hkind => absurd (hright.assignment hkind) ?_, fun inner hinner => ?_⟩
    · exact Nat.not_lt.mpr hpower.1.le
    · have hkind : right.kind = .binaryExpression := by
        by_contra hne
        have hnone : (right.withField .right).level? = none := level?_eq_none hne
        rw [hnone] at hinner
        contradiction
      obtain ⟨level', hlevel', -, hlt⟩ := hright.binary hkind
      obtain rfl : level' = inner := Option.some.inj (hlevel'.symm.trans hinner)
      exact hlt
  · rintro ⟨-, hoperator⟩ operand hoperand
    rw [operator?_binary hlevel hassociativity, Option.some.injEq] at hoperator
    obtain rfl : left.withField .left = operand := by simpa using hoperand
    exact hrange hoperator
  · simp
  · simp
  · simp [trailedSlot?]

end Binary

theorem power_lt_cast {node : Node} {level : PrecedenceLevel} (hlevel : node.level? = some level)
    (hassociativity : level.associativity = .left) : level.power < .cast := by
  obtain ⟨-, kind, -, hoperator⟩ : node.kind = .binaryExpression ∧ ∃ kind,
      node.operator? = some kind ∧ Precedence.levelOf? kind = some level := by
    simpa [level?, Option.bind_eq_some_iff] using hlevel
  exact (Precedence.power_between kind level hoperator hassociativity).2

theorem Admits.not_isClosedBinary {node : Node} {own : BindingPower} (h : node.Admits own)
    (hown : .cast ≤ own) (hnode : node.KeepsPrecedence) : ¬node.IsClosedBinary := by
  rintro ⟨hkind, hclosed⟩
  obtain ⟨level, _, hlevel, hassociativity, -⟩ := hnode.left hkind
  have hle : BindingPower.cast ≤ level.power := Nat.le_trans hown (h.binary level hlevel hclosed)
  exact Nat.not_lt.mpr hle (power_lt_cast hlevel hassociativity)

theorem Exceeds.kind_not_mem {node : Node} (h : node.Exceeds .unary) :
    node.kind ∉ [.binaryExpression, .castExpression, .assignmentExpression] := by
  simp only [List.mem_cons, List.not_mem_nil, or_false, not_or]
  refine ⟨fun hkind => ?_, fun hkind => ?_, fun hkind => ?_⟩
  · obtain ⟨level, hlevel, hassociativity, hlt⟩ := h.binary hkind
    have hlt' : BindingPower.unary < .cast :=
      Nat.lt_trans hlt (power_lt_cast hlevel hassociativity)
    exact absurd hlt' (by decide)
  · exact absurd (h.cast hkind) (by decide)
  · exact absurd (h.assignment hkind) (by decide)

section Outside

variable {kind : NodeKind} {offset : UInt32} {operand : Node} {more : List Node} {token : Token}

theorem keepsPrecedence_of_ne_binary {node : Node} (h : node.kind ≠ .binaryExpression)
    (unary : node.kind = .unaryExpression → ∃ operand, node.childByField? .operand = some operand ∧
      operand.kind ∉ [.binaryExpression, .castExpression, .assignmentExpression])
    (cast : node.kind = .castExpression → ∃ value, node.childByField? .value = some value ∧
      value.kind ∉ [.castExpression, .assignmentExpression] ∧ ¬value.IsClosedBinary)
    (trailed : ∀ slot, trailedSlot? node.kind = some slot →
      ∃ operand, node.childByField? slot = some operand ∧
        operand.kind ∉ [.unaryExpression, .assignmentExpression] ∧ ¬operand.IsClosedBinary) :
    node.KeepsPrecedence :=
  ⟨fun hkind => absurd hkind h, by simp [level?_eq_none h], fun hrange => absurd hrange.1 h, unary,
    cast, trailed⟩

theorem keepsPrecedence_of_kind {node : Node} (h : node.kind ∉ operations) :
    node.KeepsPrecedence := by
  have hslot : trailedSlot? node.kind = none := by
    unfold trailedSlot?
    split <;> simp_all [operations]
  simp only [operations, List.mem_cons, List.not_mem_nil, or_false, not_or] at h
  exact keepsPrecedence_of_ne_binary h.1 (fun hkind => absurd hkind h.2.1)
    (fun hkind => absurd hkind h.2.2.1) (by simp [hslot])

@[simp] theorem keepsPrecedence_ofToken (token : Token) : (ofToken token).KeepsPrecedence := by
  have hkinds : ∀ kind, NodeKind.ofToken kind ∉ operations := by decide
  exact keepsPrecedence_of_kind (hkinds _)

theorem keepsPrecedence_unary (hoperand : operand.Exceeds .unary) :
    (ofChildren .unaryExpression offset [(ofToken token).withField .operator,
      operand.withField .operand]).KeepsPrecedence := by
  refine keepsPrecedence_of_ne_binary (by simp) (fun _ => ?_) (by simp) (by simp [trailedSlot?])
  exact ⟨_, rfl, hoperand.kind_not_mem⟩

theorem keepsPrecedence_cast (hadmits : operand.Admits .cast) (hoperand : operand.KeepsPrecedence)
    (hkind : operand.kind ≠ .castExpression) :
    (ofChildren .castExpression offset (operand.withField .value :: more)).KeepsPrecedence := by
  refine keepsPrecedence_of_ne_binary (by simp) (by simp) (fun _ => ?_) (by simp [trailedSlot?])
  exact ⟨operand.withField .value, by simp, by simp [hkind, hadmits.assignment],
    hadmits.not_isClosedBinary (by decide) hoperand⟩

theorem keepsPrecedence_trailed {slot : Field} (hslot : trailedSlot? kind = some slot)
    (hadmits : operand.Admits .member) (hoperand : operand.KeepsPrecedence) :
    (ofChildren kind offset (operand.withField slot :: more)).KeepsPrecedence := by
  have hunary : operand.kind ≠ .unaryExpression :=
    fun hkind => absurd (hadmits.unary hkind) (by decide)
  have hkinds : kind ≠ .binaryExpression ∧ kind ≠ .unaryExpression ∧ kind ≠ .castExpression := by
    refine ⟨?_, ?_, ?_⟩ <;> rintro rfl <;> contradiction
  refine keepsPrecedence_of_ne_binary hkinds.1 (fun hkind => absurd hkind hkinds.2.1)
    (fun hkind => absurd hkind hkinds.2.2) fun found hfound => ?_
  obtain rfl : slot = found := Option.some.inj (hslot.symm.trans hfound)
  exact ⟨operand.withField slot, by simp, by simp [hunary, hadmits.assignment],
    hadmits.not_isClosedBinary (by decide) hoperand⟩

end Outside

end Node

end LosslessSyntax
