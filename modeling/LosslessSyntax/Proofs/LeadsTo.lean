import LosslessSyntax.Proofs.Fragment
import LosslessSyntax.Proofs.Grammar.Contract
/-!
Where rules lead: from a situation, the situations in which a rule can end, computed from the rule
and from the contracts of what it calls. The main statement is that a rule that leads to a goal
ends there when it runs, or fails with a diagnostic that recovery can deal with.
-/
namespace LosslessSyntax

/-- The pieces before the last one and the parts of that, if it is a single node. -/
def Shape.last? (shape : Shape) : Option (Shape × List Part) :=
  match shape.getLast? with
  | some ⟨parts, true, false⟩ => some (shape.dropLast, parts)
  | _ => none

theorem Shape.eq_of_last? {shape front : Shape} {parts : List Part}
    (h : shape.last? = some (front, parts)) : shape = front ++ [.one parts] := by
  unfold last? at h
  split at h
  · rename_i hlast
    obtain ⟨rest, rfl⟩ := List.getLast?_eq_some_iff.mp hlast
    obtain ⟨rfl, rfl⟩ : rest = front ∧ _ = parts := by simpa using h
    rfl
  · contradiction

@[simp] theorem Shape.last?_singleton (parts : List Part) :
    Shape.last? [.one parts] = some ([], parts) := rfl

@[simp] theorem Shape.last?_cons_cons (piece next : Piece) (shape : Shape) :
    Shape.last? (piece :: next :: shape) =
      (Shape.last? (next :: shape)).map fun (front, parts) => (piece :: front, parts) := by
  simp only [last?, List.getLast?_cons_cons, List.dropLast_cons_cons]
  split <;> rfl

@[simp] theorem Shape.last?_concat (front : Shape) (parts : List Part) :
    Shape.last? (front ++ [.one parts]) = some (front, parts) := by
  simp [last?, Piece.one]

namespace Situation

def learn (situation : Situation) (distance : Nat) (kind : TokenKind) : Situation :=
  if distance = situation.ahead.length then
    { situation with ahead := situation.ahead ++ [kind] }
  else situation

def took (situation : Situation) (kind : NodeKind) : Situation :=
  ⟨situation.shape ++ [.one [⟨none, kind⟩]], situation.ahead.tail, true⟩

def after (situation effect : Situation) : Situation :=
  { effect with moved := situation.moved || effect.moved }

def recovered (situation : Situation) (recovery : Recovery) : Situation :=
  ⟨situation.shape ++ [.one [⟨none, .error⟩]], [],
    situation.moved || (recovery.forceProgress && situation.ahead.head?.any (· != .eof))⟩

end Situation

def NodeKind.accepts (dialect : Dialect) (kind : NodeKind) (shape : Shape) : Bool :=
  (kind.forms dialect).any shape.within && shape.any (·.required)

/-- A token is read as a leaf of its own kind, but an `else` may become a pattern. -/
def Renames (kind : Option NodeKind) (token : TokenKind) : Prop :=
  kind = none ∨ token = .elseKeyword ∧ kind = some .elsePattern

/-- A rule of a nonterminal of some rank leads from a situation to a goal. -/
def Rule.LeadsTo (rank : Nat) (dialect : Dialect) :
    Rule → Context → (Situation → Prop) → Situation → Prop
  | .empty, _, goal, s => goal s
  | .seq first next, context, goal, s =>
    first.LeadsTo rank dialect context (next.LeadsTo rank dialect context goal) s
  | .take kind, _, goal, s =>
    match s.ahead with
    | [] => False
    | token :: _ =>
      token ≠ .eof ∧ Renames kind token ∧ goal (s.took (kind.getD (.ofToken token)))
  | .look distance next, context, goal, s =>
    match s.ahead[distance]? with
    | some kind => (next kind).LeadsTo rank dialect context goal s
    | none => ∀ kind, (next kind).LeadsTo rank dialect context goal (s.learn distance kind)
  | .fail failure, _, _, _ => ∀ message, failure ≠ .brokenTables message
  | .label field, _, goal, s =>
    match s.shape.last? with
    | some (front, parts) =>
      goal { s with shape := front ++ [.one (filling field (parts.map (·.kind)))] }
    | none => False
  | .labelInner field, _, goal, s =>
    match s.shape.last? with
    | some (front, parts) =>
      goal { s with shape := front ++ [.one (filling field (parts.map (·.kind)))] } ∧
        goal { s with
          shape := front ++ [Form.word .openParen, Form.fill field NodeKind.expressions,
            Form.word .closeParen] }
    | none => False
  | .wrap kind, _, goal, s =>
    kind.accepts dialect s.shape ∧ goal { s with shape := [.one [⟨none, kind⟩]] }
  | .apart rule, context, goal, s =>
    rule.LeadsTo rank dialect context (fun t => goal { t with shape := s.shape ++ t.shape })
      { s with shape := [] }
  | .call name, context, goal, s =>
    (s.moved ∨ name.rank < rank) ∧ name.Ready s ∧
      ∀ effect ∈ name.effects context (name.enter s), goal (s.after effect)
  | .within context rule, _, goal, s => rule.LeadsTo rank dialect context goal s
  | .byContext next, context, goal, s => (next context).LeadsTo rank dialect context goal s
  | .byDialect next, context, goal, s => (next dialect).LeadsTo rank dialect context goal s
  | .byOperand next, context, goal, s =>
    match s.shape.last? with
    | some (front, parts) =>
      ∀ part ∈ parts, ∀ operator,
        (next (some ⟨part.kind, operator⟩)).LeadsTo rank dialect context goal
          { s with shape := front ++ [.one [part]] }
    | none =>
      (next none).LeadsTo rank dialect context goal { s with shape := [] } ∧
        ∀ operand, (next (some operand)).LeadsTo rank dialect context goal s
  | .recover recovery rule, context, goal, s =>
    rule.LeadsTo rank dialect context (fun t => goal { t with shape := s.shape ++ t.shape })
      { s with shape := [] } ∧
      goal (s.recovered recovery)
  | .attempt trial next otherwise, context, goal, s =>
    trial.LeadsTo rank dialect context (next.LeadsTo rank dialect context goal) s ∧
      otherwise.LeadsTo rank dialect context goal s
  | .naming rule, context, goal, s => rule.LeadsTo rank dialect context goal s

end LosslessSyntax
