import LosslessSyntax.Proofs.Conditions.Heads
import LosslessSyntax.Proofs.Following
/-!
Clean nodes: no errors, and no head of an `if` or a `for` that ends in a name of a branch of its
own. A brace behind such a name is read in one way by the canonical dialect and in another way by
the extended one. What is clean at the end of a run was clean all along.
-/
namespace LosslessSyntax

open Node (Throughout)

namespace Node

mutual

/-- Whether an expression ends in a plain name. In a condition a brace behind a name is left for the
body, so only names in the branches of an `if` inside it count there. -/
def endsInName (inCondition : Bool) : Node → Bool
  | ⟨_, kind, _, children, _⟩ =>
    match kind with
    | .identifier => !inCondition
    | .binaryExpression | .unaryExpression | .assignmentExpression =>
      lastEndsInName inCondition children
    | .ifExpression => lastEndsInName false children
    | _ => false

def lastEndsInName (inCondition : Bool) : List Node → Bool
  | [] => false
  | [node] => endsInName inCondition node
  | _ :: next :: rest => lastEndsInName inCondition (next :: rest)

end

/-- Whether a head that ends in a name stands right in front of a block. -/
def leadsIntoBlock : List Node → Bool
  | head :: body :: rest =>
    ((head.field == some .condition || head.field == some .iterable) && head.endsInName true &&
      body.kind == .block) || leadsIntoBlock (body :: rest)
  | _ => false

/-- Whether the node is an `if` or a `for` whose head ends in a name that a brace follows. -/
def misleads (node : Node) : Bool :=
  [.ifStatement, .ifExpression, .forStatement].contains node.kind && leadsIntoBlock node.children

/-- The node is no error, and it does not mislead. -/
structure Clean (node : Node) : Prop where
  kind_ne : node.kind ≠ .error
  misleads : node.misleads = false

variable {node head body : Node} {nodes front back : List Node} {inCondition : Bool} {field : Field}

@[simp] theorem endsInName_withField :
    (node.withField field).endsInName inCondition = node.endsInName inCondition := by
  cases node
  rfl

theorem endsInName_of_identifier (hkind : node.kind = .identifier) :
    node.endsInName inCondition = !inCondition := by
  cases node
  subst hkind
  rfl

theorem kind_ofTokenAs_get {stream : TokenStream} {index : Nat} {kind : TokenKind}
    (hkind : stream.kind index = kind) :
    (ofTokenAs none (stream.get index)).kind = .ofToken kind := by
  rw [← hkind]
  rfl

@[simp] theorem lastEndsInName_concat :
    lastEndsInName inCondition (nodes ++ [node]) = node.endsInName inCondition := by
  induction nodes with
  | nil => rfl
  | cons first nodes ih =>
    cases nodes with
    | nil => rfl
    | cons second nodes => exact ih

theorem lastEndsInName_append (h : lastEndsInName inCondition back) :
    lastEndsInName inCondition (front ++ back) := by
  rcases List.eq_nil_or_concat back with rfl | ⟨init, last, rfl⟩
  · contradiction
  · rw [List.concat_eq_append] at h ⊢
    rw [lastEndsInName_concat] at h
    rwa [← List.append_assoc, lastEndsInName_concat]

theorem lastEndsInName_label (h : lastEndsInName inCondition nodes) :
    lastEndsInName inCondition (replaceLast (fun node => [node.withField field]) nodes) := by
  rcases List.eq_nil_or_concat nodes with rfl | ⟨init, last, rfl⟩
  · contradiction
  · rw [List.concat_eq_append] at h ⊢
    rw [lastEndsInName_concat] at h
    rwa [replaceLast_concat, lastEndsInName_concat, endsInName_withField]

theorem leadsIntoBlock_append (h : leadsIntoBlock back) : leadsIntoBlock (front ++ back) := by
  induction front with
  | nil => exact h
  | cons first front ih =>
    cases hfront : front ++ back with
    | nil => simp [leadsIntoBlock, hfront] at ih
    | cons second rest =>
      rw [hfront] at ih
      simp [leadsIntoBlock, hfront, ih]

theorem clean_withField : (node.withField field).Clean ↔ node.Clean :=
  ⟨fun h => ⟨h.kind_ne, h.misleads⟩, fun h => ⟨h.kind_ne, h.misleads⟩⟩

theorem clean_of_kind (hkind : node.kind ∉ [.error, .ifStatement, .ifExpression, .forStatement]) :
    node.Clean := by
  simp only [List.mem_cons, List.not_mem_nil, or_false, not_or] at hkind
  exact ⟨hkind.1, by simp [misleads, hkind]⟩

theorem clean_lingers : Lingers Clean where
  withField _ _ := clean_withField
  grouped _ hkind _ := clean_of_kind (by simp [hkind])

end Node

open Node (Clean)

def Action.Retains (action : Action) : Prop :=
  ∀ (setting : Setting) (nodes : List Node) (cursor : Cursor),
    (action setting nodes cursor).Satisfies True fun after _ =>
      Throughout Clean after → Throughout Clean nodes

theorem Rule.run_retains {expand : Nonterminal → Action} (hexpand : ∀ name, (expand name).Retains)
    (rule : Rule) : Action.Retains (rule.run expand) :=
  rule.run_retainsAll Node.clean_lingers hexpand

theorem Nonterminal.run_retains (depth : Nat) (name : Nonterminal) :
    Action.Retains (name.run depth) :=
  name.run_retainsAll Node.clean_lingers depth

end LosslessSyntax
