import LosslessSyntax.Parse.Run
import LosslessSyntax.Proofs.Precedence.Frame
/-!
Operations: expressions that are made of operators and operands, the tokens they are written with,
and the nodes that stand for those tokens.
-/
namespace LosslessSyntax

def TokenStream.HasKinds (stream : TokenStream) : Nat → List TokenKind → Prop
  | _, [] => True
  | start, kind :: kinds => stream.kind start = kind ∧ stream.HasKinds (start + 1) kinds

namespace TokenStream

variable {stream : TokenStream} {start : Nat} {kind : TokenKind} {front back kinds : List TokenKind}

@[simp] theorem hasKinds_nil : stream.HasKinds start [] := trivial

@[simp] theorem hasKinds_cons :
    stream.HasKinds start (kind :: kinds) ↔
      stream.kind start = kind ∧ stream.HasKinds (start + 1) kinds := Iff.rfl

@[simp] theorem hasKinds_append :
    stream.HasKinds start (front ++ back) ↔
      stream.HasKinds start front ∧ stream.HasKinds (start + front.length) back := by
  induction front generalizing start with
  | nil => simp
  | cons kind front ih => simp [ih, and_assoc, Nat.add_assoc, Nat.add_comm 1]

instance decidableHasKinds (stream : TokenStream) :
    (start : Nat) → (kinds : List TokenKind) → Decidable (stream.HasKinds start kinds)
  | _, [] => .isTrue trivial
  | start, _ :: kinds =>
    have := decidableHasKinds stream (start + 1) kinds
    inferInstanceAs (Decidable (_ ∧ _))

end TokenStream

namespace Node

variable {node : Node} {nodes more : List Node}

@[simp] theorem hasError_withField {field : Field} :
    (node.withField field).hasError = node.hasError := by
  cases node
  rfl

@[simp] theorem anyHasError_append :
    anyHasError (nodes ++ more) = (anyHasError nodes || anyHasError more) := by
  induction nodes with
  | nil => rfl
  | cons node nodes ih => simp only [List.cons_append, anyHasError, ih, Bool.or_assoc]

end Node

/-- An expression made of operators and operands. Atoms and what stands for a sign or a word are told
by the kinds of their tokens, and casts are to primitive types. -/
inductive Operation where
  | atom (kind : TokenKind)
  | grouped (inner : Operation)
  | member (object : Operation) (name : TokenKind)
  | dereference (object : Operation)
  | index (object place : Operation)
  | call (function : Operation) (arguments : List Operation)
  | unary (operator : TokenKind) (operand : Operation)
  | cast (value : Operation)
  | binary (operator : TokenKind) (left right : Operation)
  | assignment (operator : TokenKind) (target value : Operation)

namespace Operation

mutual

@[simp] def kinds : Operation → List TokenKind
  | .atom kind => [kind]
  | .grouped inner => .openParen :: (kinds inner ++ [.closeParen])
  | .member object name => kinds object ++ [.dot, name]
  | .dereference object => kinds object ++ [.dot, .star]
  | .index object place => kinds object ++ .openBracket :: (kinds place ++ [.closeBracket])
  | .call function arguments =>
    kinds function ++ .openParen :: (listKinds arguments ++ [.closeParen])
  | .unary operator operand => operator :: kinds operand
  | .cast value => kinds value ++ [.asKeyword, .primitive]
  | .binary operator left right => kinds left ++ operator :: kinds right
  | .assignment operator target value => kinds target ++ operator :: kinds value

@[simp] def listKinds : List Operation → List TokenKind
  | [] => []
  | [last] => kinds last
  | first :: rest => kinds first ++ .comma :: listKinds rest

end

def length (operation : Operation) : Nat := operation.kinds.length

section Length

variable {inner object place function operand value left right target : Operation}
  {arguments : List Operation} {operator name : TokenKind}

theorem length_kinds : inner.kinds.length = inner.length := rfl

@[simp] theorem length_grouped : (grouped inner).length = inner.length + 2 := by
  simp [length]

@[simp] theorem length_member : (member object name).length = object.length + 2 := by
  simp [length]

@[simp] theorem length_dereference : (dereference object).length = object.length + 2 := by
  simp [length]

@[simp] theorem length_index :
    (index object place).length = object.length + place.length + 2 := by
  simp [length]
  omega

@[simp] theorem length_call :
    (call function arguments).length = function.length + (listKinds arguments).length + 2 := by
  simp [length]
  omega

@[simp] theorem length_unary : (unary operator operand).length = operand.length + 1 := by
  simp [length]

@[simp] theorem length_cast : (cast value).length = value.length + 2 := by simp [length]

@[simp] theorem length_binary :
    (binary operator left right).length = left.length + right.length + 1 := by
  simp [length]
  omega

@[simp] theorem length_assignment :
    (assignment operator target value).length = target.length + value.length + 1 := by
  simp [length]
  omega

end Length

section HasKinds

variable {stream : TokenStream} {start : Nat} {inner object place function operand value left right
  target first second : Operation} {arguments : List Operation} {operator name : TokenKind}

theorem hasKinds_grouped :
    stream.HasKinds start (grouped inner).kinds ↔
      stream.kind start = .openParen ∧ stream.HasKinds (start + 1) inner.kinds ∧
        stream.kind (start + 1 + inner.length) = .closeParen := by
  simp [length_kinds]

theorem hasKinds_member :
    stream.HasKinds start (member object name).kinds ↔
      stream.HasKinds start object.kinds ∧ stream.kind (start + object.length) = .dot ∧
        stream.kind (start + object.length + 1) = name := by
  simp [length_kinds]

theorem hasKinds_dereference :
    stream.HasKinds start (dereference object).kinds ↔
      stream.HasKinds start object.kinds ∧ stream.kind (start + object.length) = .dot ∧
        stream.kind (start + object.length + 1) = .star := by
  simp [length_kinds]

theorem hasKinds_index :
    stream.HasKinds start (index object place).kinds ↔
      stream.HasKinds start object.kinds ∧ stream.kind (start + object.length) = .openBracket ∧
        stream.HasKinds (start + object.length + 1) place.kinds ∧
          stream.kind (start + object.length + 1 + place.length) = .closeBracket := by
  simp [length_kinds]

theorem hasKinds_call :
    stream.HasKinds start (call function arguments).kinds ↔
      stream.HasKinds start function.kinds ∧
        stream.kind (start + function.length) = .openParen ∧
          stream.HasKinds (start + function.length + 1) (listKinds arguments) ∧
            stream.kind (start + function.length + 1 + (listKinds arguments).length) =
              .closeParen := by
  simp [length_kinds]

theorem hasKinds_listKinds_cons :
    stream.HasKinds start (listKinds (first :: second :: arguments)) ↔
      stream.HasKinds start first.kinds ∧ stream.kind (start + first.length) = .comma ∧
        stream.HasKinds (start + first.length + 1) (listKinds (second :: arguments)) := by
  simp [length_kinds]

theorem hasKinds_unary :
    stream.HasKinds start (unary operator operand).kinds ↔
      stream.kind start = operator ∧ stream.HasKinds (start + 1) operand.kinds := by
  simp

theorem hasKinds_cast :
    stream.HasKinds start (cast value).kinds ↔
      stream.HasKinds start value.kinds ∧ stream.kind (start + value.length) = .asKeyword ∧
        stream.kind (start + value.length + 1) = .primitive := by
  simp [length_kinds]

theorem hasKinds_binary :
    stream.HasKinds start (binary operator left right).kinds ↔
      stream.HasKinds start left.kinds ∧ stream.kind (start + left.length) = operator ∧
        stream.HasKinds (start + left.length + 1) right.kinds := by
  simp [length_kinds]

theorem hasKinds_assignment :
    stream.HasKinds start (assignment operator target value).kinds ↔
      stream.HasKinds start target.kinds ∧ stream.kind (start + target.length) = operator ∧
        stream.HasKinds (start + target.length + 1) value.kinds := by
  simp [length_kinds]

end HasKinds

def nodeOf (kind : NodeKind) (children : List Node) : Node := .ofChildren kind 0 children

mutual

def node (stream : TokenStream) (start : Nat) : Operation → Node
  | .atom _ => .ofToken (stream.get start)
  | .grouped inner =>
    nodeOf .groupedExpression [.ofToken (stream.get start), node stream (start + 1) inner,
      .ofToken (stream.get (start + 1 + inner.length))]
  | .member object _ =>
    nodeOf .memberExpression [(node stream start object).withField .object,
      .ofToken (stream.get (start + object.length)),
      (Node.ofToken (stream.get (start + object.length + 1))).withField .property]
  | .dereference object =>
    nodeOf .dereferenceExpression [(node stream start object).withField .object,
      .ofToken (stream.get (start + object.length)),
      .ofToken (stream.get (start + object.length + 1))]
  | .index object place =>
    nodeOf .indexExpression [(node stream start object).withField .object,
      .ofToken (stream.get (start + object.length)),
      (node stream (start + object.length + 1) place).withField .index,
      .ofToken (stream.get (start + object.length + 1 + place.length))]
  | .call function arguments =>
    nodeOf .functionCall ((node stream start function).withField .function ::
      .ofToken (stream.get (start + function.length)) ::
      (listNodes stream (start + function.length + 1) arguments ++
        [.ofToken (stream.get (start + function.length + 1 + (listKinds arguments).length))]))
  | .unary _ operand =>
    nodeOf .unaryExpression [(Node.ofToken (stream.get start)).withField .operator,
      (node stream (start + 1) operand).withField .operand]
  | .cast value =>
    nodeOf .castExpression [(node stream start value).withField .value,
      .ofToken (stream.get (start + value.length)),
      (Node.ofToken (stream.get (start + value.length + 1))).withField .type]
  | .binary _ left right =>
    nodeOf .binaryExpression [(node stream start left).withField .left,
      (Node.ofToken (stream.get (start + left.length))).withField .operator,
      (node stream (start + left.length + 1) right).withField .right]
  | .assignment _ target value =>
    nodeOf .assignmentExpression [(node stream start target).withField .left,
      (Node.ofToken (stream.get (start + target.length))).withField .operator,
      (node stream (start + target.length + 1) value).withField .right]

def listNodes (stream : TokenStream) (start : Nat) : List Operation → List Node
  | [] => []
  | [last] => [(node stream start last).withField .arguments]
  | first :: rest =>
    (node stream start first).withField .arguments ::
      .ofToken (stream.get (start + first.length)) ::
      listNodes stream (start + first.length + 1) rest

end

def level : Operation → BindingPower
  | .atom _ | .grouped _ => .primary
  | .member _ _ | .dereference _ | .index _ _ | .call _ _ => .member
  | .unary _ _ => .unary
  | .cast _ => .cast
  | .binary operator _ _ => (Precedence.power? operator).getD .default
  | .assignment _ _ _ => .assignment

def atoms : List TokenKind :=
  [.identifier, .number, .string, .char, .byteChar, .trueKeyword, .falseKeyword, .nullKeyword]

def names : List TokenKind := [.identifier, .typeIdentifier, .number]

def isCallable : Operation → Bool
  | .atom .identifier | .member _ _ => true
  | _ => false

def isPlace : Operation → Bool
  | .atom .identifier | .member _ _ | .index _ _ | .dereference _ => true
  | _ => false

def isRange : Operation → Bool
  | .binary .dotDot _ _ => true
  | _ => false

/-- Operands hold together at least as tightly as their operators ask, so that no parentheses are
missing. -/
inductive WellFormed : Operation → Prop where
  | atom {kind : TokenKind} (known : kind ∈ atoms) : WellFormed (.atom kind)
  | grouped {inner : Operation} (within : WellFormed inner) : WellFormed (.grouped inner)
  | member {object : Operation} {name : TokenKind} (left : WellFormed object)
      (tight : .member ≤ object.level) (named : name ∈ names) : WellFormed (.member object name)
  | dereference {object : Operation} (left : WellFormed object) (tight : .member ≤ object.level) :
      WellFormed (.dereference object)
  | index {object place : Operation} (left : WellFormed object) (tight : .member ≤ object.level)
      (within : WellFormed place) : WellFormed (.index object place)
  | call {function : Operation} {arguments : List Operation} (left : WellFormed function)
      (callable : function.isCallable) (within : ∀ argument ∈ arguments, WellFormed argument) :
      WellFormed (.call function arguments)
  | unary {operator : TokenKind} {operand : Operation} (leading : Precedence.isLeading operator)
      (right : WellFormed operand) (tight : .unary ≤ operand.level) :
      WellFormed (.unary operator operand)
  | cast {value : Operation} (left : WellFormed value) (tight : .unary ≤ value.level) :
      WellFormed (.cast value)
  | binary {operator : TokenKind} {left right : Operation} {level : PrecedenceLevel}
      (known : level ∈ Precedence.levelOf? operator) (associativity : level.associativity = .left)
      (before : WellFormed left) (after : WellFormed right) (tight : level.power ≤ left.level)
      (tighter : level.power < right.level)
      (unchained : operator = .dotDot → left.isRange = false) :
      WellFormed (.binary operator left right)
  | assignment {operator : TokenKind} {target value : Operation}
      (known : operator ∈ [.assignment, .plusEquals]) (left : WellFormed target)
      (place : target.isPlace) (right : WellFormed value) :
      WellFormed (.assignment operator target value)

theorem level_binary {operator : TokenKind} {left right : Operation} {level : PrecedenceLevel}
    (known : level ∈ Precedence.levelOf? operator) :
    (binary operator left right).level = level.power := by
  simp only [Operation.level, Precedence.power?_eq _ _ known, Option.getD_some]

/-- What an operator behind an operation may bind by at most for the operation to be left as it is.
Behind an assignment none may, since its right side would take it. -/
def closing : Operation → BindingPower
  | .assignment _ _ _ => .default
  | operation => operation.level

theorem closing_binary {operator : TokenKind} {left right : Operation} {level : PrecedenceLevel}
    (known : level ∈ Precedence.levelOf? operator) :
    (binary operator left right).closing = level.power := by
  rw [closing, level_binary known]
  simp

section Order

variable {own : BindingPower}

theorem closing_le_level (operation : Operation) : operation.closing ≤ operation.level := by
  cases operation
  case assignment => exact Nat.zero_le _
  all_goals exact Nat.le_refl _

/-- Only assignments hold together more tightly than they let operators follow. -/
theorem le_closing {operation : Operation} (hown : .assignment < own)
    (hle : own ≤ operation.level) : own ≤ operation.closing := by
  cases operation
  case assignment => exact absurd (Nat.lt_of_lt_of_le hown hle) (Nat.lt_irrefl _)
  all_goals exact hle

end Order

/-- A brace behind a name at the end may make a struct of it. -/
def endsInName : Operation → Bool
  | .atom .identifier => true
  | .unary _ right | .binary _ _ right | .assignment _ _ right => right.endsInName
  | _ => false

/-- A question mark behind a type at the end belongs to it. -/
def endsInType : Operation → Bool
  | .cast _ => true
  | .unary _ right | .binary _ _ right | .assignment _ _ right => right.endsInType
  | _ => false

/-- What stands behind an operation does not belong to it: an operator there binds no tighter than a
power, and nothing else there goes with what is at the end of the operation. -/
structure Followed (operation : Operation) (power : BindingPower) (setting : Setting) (stop : Nat) :
    Prop where
  operator : ∀ own, setting.stream.operatorPower? stop = some own → own ≤ power
  name : operation.endsInName → setting.dialect.allowsIdentifierStructNames →
    setting.context ≠ .condition → setting.stream.kind stop ≠ .openCurly
  type : operation.endsInType → setting.stream.kind stop ≠ .question

section Followed

variable {operation other : Operation} {power : BindingPower} {setting : Setting} {stop : Nat}

theorem Followed.mono {power' : BindingPower} (h : operation.Followed power setting stop)
    (hle : power ≤ power') : operation.Followed power' setting stop :=
  ⟨fun own hown => Nat.le_trans (h.operator own hown) hle, h.name, h.type⟩

theorem Followed.congr (h : operation.Followed power setting stop)
    (hname : other.endsInName = operation.endsInName)
    (htype : other.endsInType = operation.endsInType) : other.Followed power setting stop :=
  ⟨h.operator, fun hother => h.name (hname ▸ hother), fun hother => h.type (htype ▸ hother)⟩

theorem Followed.of_kind {kind : TokenKind} (hkind : setting.stream.kind stop = kind)
    (hpower : ∀ own ∈ Precedence.power? kind, own ≤ power)
    (hother : kind ∉ [.openCurly, .question]) : operation.Followed power setting stop := by
  simp only [List.mem_cons, List.not_mem_nil, or_false, not_or] at hother
  subst hkind
  exact ⟨fun own hown => hpower own (TokenStream.operatorPower?_eq_some_iff.mp hown).2,
    fun _ _ _ => hother.1, fun _ => hother.2⟩

end Followed

def heads : List TokenKind := atoms ++ [.openParen, .dash, .bang, .ampersand]

theorem startsExpression_of_mem_heads {head : TokenKind} (h : head ∈ heads) (dialect : Dialect) :
    Grammar.startsExpression dialect head := by
  have hforms : ∀ head ∈ heads, head ≠ .fnKeyword ∧ (Grammar.leadingForm? head).isSome := by decide
  obtain ⟨hfn, hform⟩ := hforms head h
  rw [Grammar.startsExpression, if_neg hfn]
  exact hform

namespace WellFormed

variable {operation : Operation} {stream : TokenStream} {start : Nat}

theorem exists_head (h : operation.WellFormed) :
    ∃ head rest, operation.kinds = head :: rest ∧ head ∈ heads := by
  induction h with
  | atom known => exact ⟨_, [], rfl, List.mem_append_left _ known⟩
  | grouped => exact ⟨_, _, rfl, by decide⟩
  | unary leading =>
    have hleading : ∀ kind, Precedence.isLeading kind → kind ∈ heads := by decide
    exact ⟨_, _, rfl, hleading _ leading⟩
  | member _ _ _ ih | dereference _ _ ih | index _ _ _ ih | call _ _ _ ih | cast _ _ ih
  | binary _ _ _ _ _ _ _ ih | assignment _ _ _ _ ih =>
    obtain ⟨head, rest, hkinds, hhead⟩ := ih
    exact ⟨head, _, by rw [kinds, hkinds, List.cons_append], hhead⟩

theorem kind_mem_heads (h : operation.WellFormed)
    (hkinds : stream.HasKinds start operation.kinds) : stream.kind start ∈ heads := by
  obtain ⟨head, rest, heq, hhead⟩ := h.exists_head
  rw [heq] at hkinds
  exact hkinds.1 ▸ hhead

end WellFormed

section Kinds

variable {operation : Operation} {stream : TokenStream} {start : Nat}

@[simp] theorem kind_nodeOf {kind : NodeKind} {children : List Node} :
    (nodeOf kind children).kind = kind := rfl

theorem kind_atom {kind : TokenKind} (hkinds : stream.HasKinds start (atom kind).kinds) :
    (node stream start (atom kind)).kind = .ofToken kind :=
  congrArg NodeKind.ofToken hkinds.1

theorem kind_of_isCallable (h : operation.isCallable)
    (hkinds : stream.HasKinds start operation.kinds) :
    (operation.node stream start).kind ∈ Grammar.callTargets := by
  unfold isCallable at h
  split at h
  · rw [kind_atom hkinds]
    decide
  · simp [node, Grammar.callTargets]
  · contradiction

theorem kind_of_isPlace (h : operation.isPlace) (hkinds : stream.HasKinds start operation.kinds) :
    (operation.node stream start).kind ∈ Grammar.assignmentTargets := by
  unfold isPlace at h
  split at h
  · rw [kind_atom hkinds]
    decide
  · simp [node, Grammar.assignmentTargets]
  · simp [node, Grammar.assignmentTargets]
  · simp [node, Grammar.assignmentTargets]
  · contradiction

theorem isPlace_of_isCallable (h : operation.isCallable) : operation.isPlace := by
  unfold isCallable at h
  split at h
  · rfl
  · rfl
  · contradiction

theorem member_le_level (h : operation.isPlace) : .member ≤ operation.level := by
  have hle : BindingPower.member ≤ .primary ∧ BindingPower.member ≤ .member := by decide
  unfold isPlace at h
  split at h
  · exact hle.1
  · exact hle.2
  · exact hle.2
  · exact hle.2
  · contradiction

theorem kind_ne_cast (h : .cast < operation.level)
    (hkinds : stream.HasKinds start operation.kinds) :
    (operation.node stream start).kind ≠ .castExpression := by
  cases operation with
  | atom kind =>
    have hkinds' : ∀ kind, NodeKind.ofToken kind ≠ .castExpression := by decide
    rw [kind_atom hkinds]
    exact hkinds' kind
  | cast value => exact absurd h (Nat.lt_irrefl _)
  | _ => simp [node]

theorem WellFormed.not_isRange (h : operation.WellFormed)
    (hkinds : stream.HasKinds start operation.kinds) (hrange : operation.isRange = false) :
    ¬(operation.node stream start).IsRange := by
  rintro ⟨hkind, hoperator⟩
  cases h with
  | atom known =>
    have hkinds' : ∀ kind, NodeKind.ofToken kind ≠ .binaryExpression := by decide
    rw [kind_atom hkinds] at hkind
    exact hkinds' _ hkind
  | @binary operator left right level known associativity =>
    obtain ⟨-, hkind, -⟩ := hasKinds_binary.mp hkinds
    have hlevel : level ∈ Precedence.levelOf? (stream.get (start + left.length)).kind := by
      rw [← TokenStream.kind, hkind]
      exact known
    have hfound : some (stream.get (start + left.length)).kind = some .dotDot :=
      (Node.operator?_binary hlevel associativity).symm.trans hoperator
    obtain rfl : operator = .dotDot := hkind.symm.trans (Option.some.inj hfound)
    contradiction
  | _ => simp [node] at hkind

end Kinds

section Errors

variable {operation : Operation} {stream : TokenStream} {start : Nat}

@[simp] theorem hasError_nodeOf {kind : NodeKind} {children : List Node} :
    (nodeOf kind children).hasError = (kind == .error || Node.anyHasError children) := by
  simp [nodeOf, Node.ofChildren, Node.hasError]

theorem hasError_token {index : Nat} {kind : TokenKind} (hkind : stream.kind index = kind)
    (h : NodeKind.ofToken kind ≠ .error) : (Node.ofToken (stream.get index)).hasError = false := by
  rw [← hkind] at h
  unfold Node.ofToken
  split
  · rename_i hkind
    rw [TokenStream.kind, hkind] at h
    contradiction
  · have hleaf : NodeKind.ofToken (stream.get index).kind ≠ .error := h
    simp [Node.leaf, Node.hasError, Node.anyHasError, hleaf]

theorem anyHasError_listNodes {arguments : List Operation}
    (hwithin : ∀ argument ∈ arguments, ∀ start, stream.HasKinds start argument.kinds →
      (argument.node stream start).hasError = false)
    (hkinds : stream.HasKinds start (listKinds arguments)) :
    Node.anyHasError (listNodes stream start arguments) = false := by
  induction arguments generalizing start with
  | nil => rfl
  | cons first rest ih =>
    have hfirst := hwithin first List.mem_cons_self
    cases rest with
    | nil => simp [listNodes, Node.anyHasError, hfirst start hkinds]
    | cons second rest =>
      obtain ⟨hkinds, hcomma, hmore⟩ := hasKinds_listKinds_cons.mp hkinds
      have hrest := ih (fun argument hmem => hwithin argument (List.mem_cons_of_mem _ hmem)) hmore
      simp [listNodes, Node.anyHasError, hfirst start hkinds, hasError_token hcomma (by decide),
        hrest]

theorem WellFormed.hasError_node (h : operation.WellFormed)
    (hkinds : stream.HasKinds start operation.kinds) :
    (operation.node stream start).hasError = false := by
  induction h generalizing start with
  | atom known =>
    have hatoms : ∀ kind ∈ atoms, NodeKind.ofToken kind ≠ .error := by decide
    exact hasError_token hkinds.1 (hatoms _ known)
  | grouped within ih =>
    obtain ⟨hopen, hinner, hclose⟩ := hasKinds_grouped.mp hkinds
    simp [node, Node.anyHasError, ih hinner, hasError_token hopen (by decide),
      hasError_token hclose (by decide)]
  | member _ _ named ih =>
    have hnames : ∀ kind ∈ names, NodeKind.ofToken kind ≠ .error := by decide
    obtain ⟨hobject, hdot, hname⟩ := hasKinds_member.mp hkinds
    simp [node, Node.anyHasError, ih hobject, hasError_token hdot (by decide),
      hasError_token hname (hnames _ named)]
  | dereference _ _ ih =>
    obtain ⟨hobject, hdot, hstar⟩ := hasKinds_dereference.mp hkinds
    simp [node, Node.anyHasError, ih hobject, hasError_token hdot (by decide),
      hasError_token hstar (by decide)]
  | index _ _ _ ih ih' =>
    obtain ⟨hobject, hopen, hplace, hclose⟩ := hasKinds_index.mp hkinds
    simp [node, Node.anyHasError, ih hobject, ih' hplace, hasError_token hopen (by decide),
      hasError_token hclose (by decide)]
  | call _ _ _ ih ih' =>
    obtain ⟨hfunction, hopen, hmore, hclose⟩ := hasKinds_call.mp hkinds
    have hlist := anyHasError_listNodes (fun argument hmem _ => ih' argument hmem) hmore
    simp [node, Node.anyHasError, ih hfunction, hlist, hasError_token hopen (by decide),
      hasError_token hclose (by decide)]
  | unary leading _ _ ih =>
    have hleading : ∀ kind, Precedence.isLeading kind → NodeKind.ofToken kind ≠ .error := by decide
    obtain ⟨hoperator, hoperand⟩ := hkinds
    simp [node, Node.anyHasError, ih hoperand, hasError_token hoperator (hleading _ leading)]
  | cast _ _ ih =>
    obtain ⟨hvalue, has, htype⟩ := hasKinds_cast.mp hkinds
    simp [node, Node.anyHasError, ih hvalue, hasError_token has (by decide),
      hasError_token htype (by decide)]
  | binary known associativity _ _ _ _ _ ih ih' =>
    have hoperator := Precedence.ofToken_of_levelOf? _ _ known associativity
    obtain ⟨hleft, hkind, hright⟩ := hasKinds_binary.mp hkinds
    simp [node, Node.anyHasError, ih hleft, ih' hright, hasError_token hkind (by simp [hoperator])]
  | assignment known _ _ _ ih ih' =>
    have hoperators : ∀ kind ∈ [TokenKind.assignment, .plusEquals],
        NodeKind.ofToken kind ≠ .error := by decide
    obtain ⟨htarget, hkind, hvalue⟩ := hasKinds_assignment.mp hkinds
    simp [node, Node.anyHasError, ih htarget, ih' hvalue,
      hasError_token hkind (hoperators _ known)]

end Errors

end Operation

end LosslessSyntax
