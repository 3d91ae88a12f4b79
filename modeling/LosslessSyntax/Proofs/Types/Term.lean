import LosslessSyntax.Proofs.Precedence.Operation
/-!
Type terms: types as trees, the tokens that they are written with, and the nodes that stand for
those tokens.
-/
namespace LosslessSyntax

open Operation (nodeOf)

/-- A type. Lists are of types with a name before them or without, and may have a comma at the end.
What is the length of an array is told by the kind of its token. -/
inductive TypeTerm where
  | primitive
  | parameter
  | name
  | generic (arguments : List (Bool × TypeTerm)) (trailing : Bool)
  | tuple (elements : List (Bool × TypeTerm)) (trailing : Bool)
  | array (element : TypeTerm) (length : TokenKind)
  | function (parameters : List (Bool × TypeTerm)) (trailing : Bool) (result : TypeTerm)
  | reference (target : TypeTerm)
  | optional (operand : TypeTerm)
  | slice (operand : TypeTerm)

namespace TypeTerm

mutual

def kinds : TypeTerm → List TokenKind
  | .primitive => [.primitive]
  | .parameter => [.dollar, .identifier]
  | .name => [.typeIdentifier]
  | .generic arguments trailing =>
    .typeIdentifier :: .openParen :: (listKinds trailing arguments ++ [.closeParen])
  | .tuple elements trailing => .openParen :: (listKinds trailing elements ++ [.closeParen])
  | .array element length =>
    .openBracket :: (kinds element ++ [.semicolon, length, .closeBracket])
  | .function parameters trailing result =>
    .fnKeyword :: .openParen :: (listKinds trailing parameters ++ .closeParen :: kinds result)
  | .reference target => .ampersand :: kinds target
  | .optional operand => kinds operand ++ [.question]
  | .slice operand => kinds operand ++ [.openBracket, .closeBracket]

def entryKinds : Bool × TypeTerm → List TokenKind
  | (false, type) => kinds type
  | (true, type) => .identifier :: .colon :: kinds type

def listKinds (trailing : Bool) : List (Bool × TypeTerm) → List TokenKind
  | [] => []
  | entry :: rest =>
    entryKinds entry ++ if rest.isEmpty && !trailing then [] else .comma :: listKinds trailing rest

end

def length (type : TypeTerm) : Nat := type.kinds.length

section Length

variable {type element result target operand : TypeTerm} {entries : List (Bool × TypeTerm)}
  {trailing : Bool} {kind : TokenKind}

theorem length_kinds : type.kinds.length = type.length := rfl

@[simp] theorem length_generic :
    (generic entries trailing).length = (listKinds trailing entries).length + 3 := by
  simp [length, kinds]

@[simp] theorem length_tuple :
    (tuple entries trailing).length = (listKinds trailing entries).length + 2 := by
  simp [length, kinds]

@[simp] theorem length_array : (array element kind).length = element.length + 4 := by
  simp [length, kinds]

@[simp] theorem length_function :
    (function entries trailing result).length =
      (listKinds trailing entries).length + result.length + 3 := by
  simp [length, kinds]
  omega

@[simp] theorem length_reference : (reference target).length = target.length + 1 := by
  simp [length, kinds]

@[simp] theorem length_optional : (optional operand).length = operand.length + 1 := by
  simp [length, kinds]

@[simp] theorem length_slice : (slice operand).length = operand.length + 2 := by
  simp [length, kinds]

end Length

mutual

def node (stream : TokenStream) (start : Nat) : TypeTerm → Node
  | .primitive => .ofToken (stream.get start)
  | .parameter =>
    nodeOf .genericTypeParameter
      [.ofToken (stream.get start), .ofToken (stream.get (start + 1))]
  | .name => nodeOf .namedType [(Node.ofToken (stream.get start)).withField .name]
  | .generic arguments trailing =>
    nodeOf .namedType [(Node.ofToken (stream.get start)).withField .name,
      nodeOf .genericArguments (.ofToken (stream.get (start + 1)) ::
        (listNodes stream trailing (start + 2) arguments ++
          [.ofToken (stream.get (start + 2 + (listKinds trailing arguments).length))]))]
  | .tuple elements trailing =>
    nodeOf .tupleType (.ofToken (stream.get start) ::
      (listNodes stream trailing (start + 1) elements ++
        [.ofToken (stream.get (start + 1 + (listKinds trailing elements).length))]))
  | .array element _ =>
    nodeOf .arrayType [.ofToken (stream.get start),
      (node stream (start + 1) element).withField .type,
      .ofToken (stream.get (start + 1 + element.length)),
      (Node.ofToken (stream.get (start + 1 + element.length + 1))).withField .length,
      .ofToken (stream.get (start + 1 + element.length + 2))]
  | .function parameters trailing result =>
    nodeOf .functionType (.ofToken (stream.get start) :: .ofToken (stream.get (start + 1)) ::
      (listNodes stream trailing (start + 2) parameters ++
        [.ofToken (stream.get (start + 2 + (listKinds trailing parameters).length)),
          (node stream (start + 2 + (listKinds trailing parameters).length + 1) result).withField
            .returnType]))
  | .reference target =>
    nodeOf .referenceType [.ofToken (stream.get start),
      (node stream (start + 1) target).withField .type]
  | .optional operand =>
    nodeOf .optionalType [(node stream start operand).withField .type,
      .ofToken (stream.get (start + operand.length))]
  | .slice operand =>
    nodeOf .sliceType [(node stream start operand).withField .type,
      .ofToken (stream.get (start + operand.length)),
      .ofToken (stream.get (start + operand.length + 1))]

def entryNode (stream : TokenStream) (start : Nat) : Bool × TypeTerm → Node
  | (false, type) => node stream start type
  | (true, type) =>
    nodeOf .parameter [(Node.ofToken (stream.get start)).withField .name,
      .ofToken (stream.get (start + 1)), (node stream (start + 2) type).withField .type]

def listNodes (stream : TokenStream) (trailing : Bool) (start : Nat) :
    List (Bool × TypeTerm) → List Node
  | [] => []
  | entry :: rest =>
    entryNode stream start entry ::
      if rest.isEmpty && !trailing then []
      else
        .ofToken (stream.get (start + (entryKinds entry).length)) ::
          listNodes stream trailing (start + (entryKinds entry).length + 1) rest

end

def isSuffixed : TypeTerm → Bool
  | .optional _ | .slice _ => true
  | _ => false

/-- A suffix behind the result of a function type belongs to the result. -/
def endsInFunction : TypeTerm → Bool
  | .function _ _ _ => true
  | .reference target => target.endsInFunction
  | _ => false

/-- A parenthesis behind a name begins its arguments. -/
def endsInName : TypeTerm → Bool
  | .name => true
  | .reference target => target.endsInName
  | .function _ _ result => result.endsInName
  | _ => false

/-- What can be written. There are no parentheses around types, so a reference is to a type without
a suffix, and a suffix is put behind a type that does not end in a function type. Only parameters
have names. -/
inductive WellFormed : TypeTerm → Prop where
  | primitive : WellFormed .primitive
  | parameter : WellFormed .parameter
  | name : WellFormed .name
  | generic {arguments : List (Bool × TypeTerm)} {trailing : Bool}
      (within : ∀ entry ∈ arguments, WellFormed entry.2)
      (unnamed : ∀ entry ∈ arguments, entry.1 = false) (given : arguments ≠ []) :
      WellFormed (.generic arguments trailing)
  | tuple {elements : List (Bool × TypeTerm)} {trailing : Bool}
      (within : ∀ entry ∈ elements, WellFormed entry.2)
      (unnamed : ∀ entry ∈ elements, entry.1 = false) : WellFormed (.tuple elements trailing)
  | array {element : TypeTerm} {length : TokenKind} (within : WellFormed element)
      (known : length ∈ [.number, .identifier]) : WellFormed (.array element length)
  | function {parameters : List (Bool × TypeTerm)} {trailing : Bool} {result : TypeTerm}
      (within : ∀ entry ∈ parameters, WellFormed entry.2) (right : WellFormed result) :
      WellFormed (.function parameters trailing result)
  | reference {target : TypeTerm} (right : WellFormed target)
      (bare : target.isSuffixed = false) : WellFormed (.reference target)
  | optional {operand : TypeTerm} (left : WellFormed operand)
      (closed : operand.endsInFunction = false) : WellFormed (.optional operand)
  | slice {operand : TypeTerm} (left : WellFormed operand)
      (closed : operand.endsInFunction = false) : WellFormed (.slice operand)

def heads : List TokenKind :=
  [.primitive, .dollar, .typeIdentifier, .openParen, .openBracket, .fnKeyword, .ampersand]

theorem exists_head : (type : TypeTerm) → ∃ head rest, type.kinds = head :: rest ∧ head ∈ heads
  | .primitive | .parameter | .name | .generic _ _ | .tuple _ _ | .array _ _ | .function _ _ _
  | .reference _ => ⟨_, _, by rw [kinds], by decide⟩
  | .optional operand | .slice operand =>
    have ⟨head, _, hkinds, hhead⟩ := exists_head operand
    ⟨head, _, by rw [kinds, hkinds, List.cons_append], hhead⟩

theorem kind_mem_heads {type : TypeTerm} {stream : TokenStream} {start : Nat}
    (hkinds : stream.HasKinds start type.kinds) : stream.kind start ∈ heads := by
  obtain ⟨head, rest, heq, hhead⟩ := type.exists_head
  rw [heq] at hkinds
  exact hkinds.1 ▸ hhead

end TypeTerm

end LosslessSyntax
