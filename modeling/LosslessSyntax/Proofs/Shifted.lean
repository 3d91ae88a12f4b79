import LosslessSyntax.Proofs.Reach
/-!
Moved tokens give moved trees: whatever is made of tokens and nodes is made in the same way of moved
ones, and is then moved itself.
-/
namespace LosslessSyntax

/-- The diagnostic moved by a signed distance. One of a broken invariant is about no place. -/
def Diagnostic.carried (distance : Int) (diagnostic : Diagnostic) : Diagnostic :=
  if diagnostic.isInternal then diagnostic else diagnostic.shifted distance

@[simp] theorem Diagnostic.isInternal_carried (distance : Int) (diagnostic : Diagnostic) :
    (diagnostic.carried distance).isInternal = diagnostic.isInternal := by
  unfold carried
  split <;> rfl

theorem Diagnostic.carried_eq_shifted {diagnostic : Diagnostic} (distance : Int)
    (h : diagnostic.isInternal = false) :
    diagnostic.carried distance = diagnostic.shifted distance := by
  simp [carried, h]

variable {distance : Int}

@[simp] theorem Diagnostic.ofToken_shifted (token : Token) (otherwise : Cause) :
    ofToken (token.shifted distance) otherwise = (ofToken token otherwise).shifted distance := by
  unfold ofToken ofLexError
  simp only [Token.shifted_kind, Token.shifted_value]
  split <;> rfl

namespace Node

theorem shiftedAll_eq_map (nodes : List Node) :
    shiftedAll distance nodes = nodes.map (shifted distance) := by
  induction nodes with
  | nil => rfl
  | cons node nodes ih => rw [shiftedAll, ih, List.map_cons]

@[simp] theorem shiftedAll_nil : shiftedAll distance [] = [] := rfl

@[simp] theorem shiftedAll_append (front back : List Node) :
    shiftedAll distance (front ++ back) = shiftedAll distance front ++ shiftedAll distance back := by
  simp [shiftedAll_eq_map]

@[simp] theorem shiftedAll_singleton (node : Node) :
    shiftedAll distance [node] = [node.shifted distance] := rfl

@[simp] theorem shifted_kind (node : Node) : (node.shifted distance).kind = node.kind := by
  cases node
  rfl

@[simp] theorem shifted_span (node : Node) :
    (node.shifted distance).span = node.span.shifted distance := by
  cases node
  rfl

@[simp] theorem shifted_children (node : Node) :
    (node.shifted distance).children = shiftedAll distance node.children := by
  cases node
  rfl

@[simp] theorem shifted_withField (node : Node) (field : Field) :
    (node.withField field).shifted distance = (node.shifted distance).withField field := by
  cases node
  rfl

@[simp] theorem shifted_field (node : Node) : (node.shifted distance).field = node.field := by
  cases node
  rfl

theorem shifted_withDiagnostic (node : Node) (diagnostic : Diagnostic) :
    { node with diagnostic := some diagnostic : Node }.shifted distance =
      { node.shifted distance with diagnostic := some (diagnostic.shifted distance) } := by
  cases node
  rfl

theorem shifted_ofToken (token : Token) :
    (ofToken token).shifted distance = ofToken (token.shifted distance) := by
  simp only [ofToken, leaf, shifted, shiftedAll, Token.shifted_kind]
  congr 1
  split <;> rfl

@[simp] theorem shifted_ofTokenAs (kind : Option NodeKind) (token : Token) :
    (ofTokenAs kind token).shifted distance = ofTokenAs kind (token.shifted distance) := by
  cases kind with
  | none => exact shifted_ofToken token
  | some kind => rfl

theorem shiftedAll_map_ofToken (tokens : List Token) :
    shiftedAll distance (tokens.map ofToken) =
      (tokens.map (·.shifted distance)).map ofToken := by
  simp [shiftedAll_eq_map, Function.comp_def, shifted_ofToken]

theorem spanOf_shiftedAll {nodes : List Node} {start start' : UInt32}
    (hstart : nodes = [] → start' = Span.moveOffset start distance) :
    spanOf start' (shiftedAll distance nodes) = (spanOf start nodes).shifted distance := by
  rcases nodes with _ | ⟨node, nodes⟩
  · rw [hstart rfl]
    rfl
  · simp only [spanOf, shiftedAll_eq_map, List.head?_map, List.getLast?_map, List.head?_cons,
      Option.map_some]
    rcases hlast : (node :: nodes).getLast? with _ | last
    · simp at hlast
    · simp [Span.shifted]

theorem shifted_ofChildren {kind : NodeKind} {nodes : List Node} {start start' : UInt32}
    (hstart : nodes = [] → start' = Span.moveOffset start distance) :
    (ofChildren kind start nodes).shifted distance =
      ofChildren kind start' (shiftedAll distance nodes) := by
  simp only [ofChildren, shifted, spanOf_shiftedAll hstart]
  rfl

@[simp] theorem childByField?_shifted (node : Node) (field : Field) :
    (node.shifted distance).childByField? field =
      (node.childByField? field).map (shifted distance) := by
  simp only [childByField?, shifted_children, shiftedAll_eq_map, List.find?_map]
  congr 2
  funext child
  simp

@[simp] theorem innerInField_shifted (node : Node) (field : Field) :
    (node.shifted distance).innerInField field =
      shiftedAll distance (node.innerInField field) := by
  unfold innerInField
  simp only [shifted_kind, shifted_children]
  rcases node.children with _ | ⟨opening, _ | ⟨inner, _ | ⟨closing, _ | ⟨more, rest⟩⟩⟩⟩
  case cons.cons.cons.nil =>
    by_cases hkind : node.kind = .groupedExpression
    · simp [hkind, shiftedAll]
    · simp [hkind, shiftedAll]
  all_goals simp [shiftedAll]

end Node

@[simp] theorem replaceLast_shiftedAll {change : Node → List Node} (nodes : List Node)
    (hchange : ∀ node, change (node.shifted distance) = Node.shiftedAll distance (change node)) :
    replaceLast change (Node.shiftedAll distance nodes) =
      Node.shiftedAll distance (replaceLast change nodes) := by
  induction nodes with
  | nil => rfl
  | cons node rest ih =>
    cases rest with
    | nil => exact hchange node
    | cons second rest => simp only [Node.shiftedAll, replaceLast] at ih ⊢; rw [ih]

@[simp] theorem Operand.ofNodes_shiftedAll (nodes : List Node) :
    ofNodes (Node.shiftedAll distance nodes) = ofNodes nodes := by
  simp only [ofNodes, Node.shiftedAll_eq_map, List.getLast?_map, Option.map_map]
  congr 1
  funext node
  simp [Option.map_map, Function.comp_def]

theorem Failure.diagnostic_shifted (failure : Failure) (name : String) (token : Token)
    (nodes : List Node) :
    failure.diagnostic name (token.shifted distance) (Node.shiftedAll distance nodes) =
      (failure.diagnostic name token nodes).carried distance := by
  by_cases hbroken : ∃ message, failure = .brokenTables message
  · obtain ⟨message, rfl⟩ := hbroken
    rfl
  rw [Diagnostic.carried_eq_shifted _ (isInternal_diagnostic
    (fun message hmessage => hbroken ⟨message, hmessage⟩) name token nodes)]
  cases failure
  case misplacedNode message => cases nodes <;> simp [diagnostic, Diagnostic.shifted, Node.shiftedAll]
  case brokenTables message => exact absurd ⟨message, rfl⟩ hbroken
  all_goals simp [diagnostic, Diagnostic.shifted]

end LosslessSyntax
