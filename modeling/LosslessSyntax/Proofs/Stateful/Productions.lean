import LosslessSyntax.Proofs.Progress
import LosslessSyntax.Proofs.Stateful.Agreement
import LosslessSyntax.Token.Lexer
/-!
Productions leave the state of a machine in order, whether they read or fail, wherever the grammar
calls them.
-/
namespace LosslessSyntax

/-- The productions, each where the grammar calls it: the parts of the grammar at any token, and what
a token is looked up for at that token. Modifiers and left operands have been read before. -/
inductive Rule.CalledAt (kind : TokenKind) : Rule → List Node → Prop where
  | item : CalledAt kind (.call .item) []
  | statement : CalledAt kind (.call .statement) []
  | block : CalledAt kind (.call .block) []
  | expression (power : BindingPower) : CalledAt kind (.call (.expression power)) []
  | type (power : BindingPower) : CalledAt kind (.call (.type power)) []
  | pattern : CalledAt kind (.call .pattern) []
  | parameterList : CalledAt kind (.call .parameterList) []
  | genericArguments : CalledAt kind (.call .genericArguments) []
  | conditional : CalledAt kind (.call .conditional) []
  | itemForm {form : Nonterminal} (known : Grammar.itemForm? kind = some form)
      (modifiers : List Node) : CalledAt kind (.call form) modifiers
  | statementForm {form : Nonterminal} (known : Grammar.statementForm? kind = some form) :
      CalledAt kind (.call form) []
  | leadingForm {form : Nonterminal} (known : Grammar.leadingForm? kind = some form) :
      CalledAt kind (.call form) []
  | operation {operation : BindingPower → Rule} (known : Grammar.operation? kind = some operation)
      (power : BindingPower) (left : Node) : CalledAt kind (operation power) [left]
  | typeForm {form : Nonterminal} (known : Grammar.typeForm? kind = some form) :
      CalledAt kind (.call form) []
  | suffix {suffix : Rule} (known : Grammar.suffix? kind = some suffix) (left : Node) :
      CalledAt kind suffix [left]

def Node.IsEmptyError (node : Node) : Prop := node.kind = .error ∧ node.children = []

theorem Rule.run_recover_takes {expand : Nonterminal → Action}
    (hadvances : ∀ name, (expand name).Advances) (recovery : Recovery) {rule : Rule}
    {kind : TokenKind} (h : Action.TakesAt (rule.run expand) kind) {setting : Setting}
    {nodes : List Node} {cursor : Cursor} (hkind : setting.stream.kind cursor.position = kind) :
    ((Rule.recover recovery rule).run expand setting nodes cursor).Satisfies True
      fun read after => cursor.position < after.position ∨
        ∃ node : Node, read = nodes ++ [node] ∧ node.IsEmptyError := by
  have htook := h setting [] cursor hkind
  have hreaches := rule.run_advances hadvances setting [] cursor
  simp only [run, TokenStream.recover]
  rcases hrun : rule.run expand setting [] cursor with ⟨more, after⟩ | ⟨diagnostic, failed⟩
  · rw [hrun] at htook
    exact .inl htook
  · rw [hrun] at hreaches
    by_cases hinternal : diagnostic.isInternal
    · simp only [hinternal, if_true]
      trivial
    simp only [hinternal, Bool.false_eq_true, if_false]
    have hle := hreaches.position_le.trans
      (failed.position_le_skip setting.stream recovery cursor.position)
    rcases hle.eq_or_lt with hsame | hmoved
    · refine .inr ⟨_, rfl, rfl, ?_⟩
      rw [← hsame]
      exact congrArg (List.map Node.ofToken) (setting.stream.slice_self _)
    · exact .inl hmoved

theorem Nonterminal.run_parameterList (depth : Nat) (setting : Setting) (nodes : List Node)
    (cursor : Cursor) :
    (run depth .parameterList setting nodes cursor).Satisfies True fun read after =>
      cursor.position < after.position ∨
        ∃ node : Node, read = nodes ++ [node] ∧ node.IsEmptyError := by
  cases depth with
  | zero => trivial
  | succ depth =>
    refine Rule.run_recover_takes (run_advances depth) .parameters
      (Rule.run_takes (run_advances depth) (fun _ => run_takes depth) ?_) rfl
    simp

def Outcome.ofExcept (cursor : Cursor) : Except Diagnostic α → Outcome α
  | .ok value => .done value cursor
  | .error diagnostic => .failed diagnostic cursor

@[simp] theorem Outcome.cursor_ofExcept (cursor : Cursor) (result : Except Diagnostic α) :
    (Outcome.ofExcept cursor result).cursor = cursor := by
  cases result <;> rfl

namespace Machine

/-- How a production leaves a machine, whether it reads or fails. -/
structure LeftBy (machine : Machine) (rule : Rule)
    (reading : Except Diagnostic (List Node) × Machine) : Prop
    extends machine.Becomes reading.2 reading.2.cursor where
  position_le : machine.cursor.position ≤ reading.2.cursor.position
  bound : reading.2.cursor.position ≤ machine.stream.body.size
  furthest_le : machine.cursor.furthest ≤ reading.2.cursor.furthest
  /-- What reads takes a token, but for a list of parameters that is an error without tokens. -/
  progress : ∀ read, reading.1 = .ok read →
    machine.cursor.position < reading.2.cursor.position ∨
      rule = .call .parameterList ∧ ∃ node : Node, read = [node] ∧ node.IsEmptyError

theorem Performs.eq_ofExcept {machine : Machine} {reading : Except Diagnostic α × Machine}
    {outcome : Outcome α} (h : machine.Performs reading outcome) :
    outcome = .ofExcept reading.2.cursor reading.1 ∧
      machine.Becomes reading.2 reading.2.cursor := by
  cases outcome with
  | done value cursor =>
    obtain ⟨after, rfl, hafter⟩ := h
    obtain rfl := hafter.cursor
    exact ⟨rfl, hafter⟩
  | failed diagnostic cursor =>
    obtain ⟨after, rfl, hafter⟩ := h
    obtain rfl := hafter.cursor
    exact ⟨rfl, hafter⟩

end Machine

namespace Rule.CalledAt

variable {kind : TokenKind} {rule : Rule} {nodes : List Node}

theorem takes (h : rule.CalledAt kind nodes) :
    rule.Takes kind ∨ rule = .call .parameterList ∧ nodes = [] := by
  cases h with
  | parameterList => exact .inr ⟨rfl, rfl⟩
  | itemForm known => exact .inl (Grammar.takes_of_itemForm? known)
  | statementForm known => exact .inl (Grammar.takes_of_statementForm? known)
  | leadingForm known => exact .inl (Grammar.takes_of_leadingForm? known)
  | operation known power => exact .inl (Grammar.takes_of_operation? known power)
  | typeForm known => exact .inl (Grammar.takes_of_typeForm? known)
  | suffix known => exact .inl (Grammar.takes_of_suffix? known)
  | item | statement | block | expression | type | pattern | genericArguments | conditional =>
    exact .inl trivial

theorem satisfies_run (h : rule.CalledAt kind nodes) (setting : Setting) (cursor : Cursor)
    (hkind : setting.stream.kind cursor.position = kind) :
    (rule.run Nonterminal.action setting nodes cursor).Satisfies True fun read after =>
      cursor.position < after.position ∨
        rule = .call .parameterList ∧ ∃ node : Node, read = [node] ∧ node.IsEmptyError := by
  rcases h.takes with htakes | ⟨rfl, rfl⟩
  · have htook := Rule.run_takes Nonterminal.action_advances (fun _ => Nonterminal.action_takes)
      htakes setting nodes cursor hkind
    exact htook.imp .inl
  · exact (Nonterminal.run_parameterList _ setting [] cursor).imp (Or.imp_right (⟨rfl, ·⟩))

/-- Productions do on a machine what they do when they run, and they leave it in order, whether they
read or fail. The context is the one they found. The cursor is not behind where it was and not past
the end of file, and no token that was read is behind the furthest one. What reads takes a token,
but for a list of parameters that is an error without tokens. -/
theorem exec_leftBy {machine : Machine} (name : String)
    (h : rule.CalledAt (machine.stream.kind machine.cursor.position) nodes)
    (hbound : machine.cursor.position ≤ machine.stream.body.size) :
    let reading := rule.exec Nonterminal.machineAction name nodes machine
    rule.run Nonterminal.action (machine.setting name) nodes machine.cursor =
        .ofExcept reading.2.cursor reading.1 ∧
      machine.LeftBy rule reading := by
  intro reading
  have hperforms : machine.Performs reading
      (rule.run Nonterminal.action (machine.setting name) nodes machine.cursor) :=
    rule.exec_follows Nonterminal.action_advances Nonterminal.machineAction_follows machine machine
      name nodes machine.cursor (.refl _) hbound
  obtain ⟨hrun, hbecomes⟩ := hperforms.eq_ofExcept
  have hreaches := rule.run_advances Nonterminal.action_advances (machine.setting name) nodes
    machine.cursor
  have htook := h.satisfies_run (machine.setting name) machine.cursor rfl
  rw [hrun] at hreaches htook
  rw [Outcome.cursor_ofExcept] at hreaches
  refine ⟨hrun, hbecomes, hreaches.position_le, hreaches.position_bound hbound,
    hreaches.furthest_le, fun read hread => ?_⟩
  rw [hread] at htook
  exact htook

/-- A statement that fails after a list of type arguments has been tried in vain. The cursor went
back before the call failed, and one token behind it has been looked at. -/
theorem exec_leftBy_failed :
    ∃ machine : Machine, machine.stream.toList = tokenizeSignificant "defer T()" ∧
      (Rule.call .deferStatement).CalledAt (machine.stream.kind machine.cursor.position) [] ∧
      machine.cursor.position ≤ machine.stream.body.size ∧
      let reading := (Rule.call .deferStatement).exec Nonterminal.machineAction "" [] machine
      reading.1.isOk = false ∧ reading.2.context = .statement ∧ reading.2.cursor = ⟨2, 3⟩ ∧
        (Rule.call .deferStatement).run Nonterminal.action (machine.setting "") []
            machine.cursor = .ofExcept reading.2.cursor reading.1 ∧
          machine.LeftBy (.call .deferStatement) reading := by
  let stream : TokenStream :=
    ⟨#[⟨.deferKeyword, "defer", ⟨0, 5⟩⟩, ⟨.typeIdentifier, "T", ⟨6, 7⟩⟩, ⟨.openParen, "(", ⟨7, 8⟩⟩,
      ⟨.closeParen, ")", ⟨8, 9⟩⟩], .endOfFile 9, rfl⟩
  let machine : Machine := ⟨stream, .canonical, .statement, .start, []⟩
  have hcalled : (Rule.call .deferStatement).CalledAt
      (machine.stream.kind machine.cursor.position) [] := .statementForm rfl
  have hbound : machine.cursor.position ≤ machine.stream.body.size := Nat.zero_le _
  have hleft := hcalled.exec_leftBy "" hbound
  refine ⟨machine, by decide +kernel, hcalled, hbound, by decide +kernel, ?_, by decide +kernel,
    hleft⟩
  exact hleft.2.context

end Rule.CalledAt

end LosslessSyntax
