import LosslessSyntax.Proofs.Execution
import LosslessSyntax.Proofs.Reach
import LosslessSyntax.Proofs.SourceFile
/-!
Licences: what a rule may do by itself, where it may do it, and what follows for a run of it. A
licence says of positions which tokens may be taken and which nonterminals called there. The main
statement is that a property of positions, nodes and diagnostics that every single act under the
licence keeps is kept by every run of a rule that heeds the licence.
-/
namespace LosslessSyntax

open Node (Throughout)

/-- The acts that are allowed to a rule. -/
structure Licence where
  /-- The positions at which a token may be read. -/
  takes : Nat → Prop
  /-- The kinds of nodes that may be made, but for the leaves of tokens. -/
  makes : NodeKind → Prop
  fails : Failure → Prop
  /-- The nonterminals that may be called at a position, into a fragment that is fresh or not. -/
  calls : Nonterminal → Bool → Nat → Prop
  /-- How failures of a part that begins at a position may be recovered from. -/
  recovers : Recovery → Nat → Prop

/-- From a position among tokens of given kinds on, a rule does only what a licence allows, and
wherever it ends the goal holds. Callees are on their own, and may end anywhere. `fresh` tells
whether the fragment is one that has only just begun. -/
def Rule.Heeds (licence : Licence) (kinds : Nat → TokenKind) :
    Bool → Rule → (Nat → Prop) → Nat → Prop
  | _, .empty, goal, position => goal position
  | fresh, .seq first next, goal, position =>
    first.Heeds licence kinds fresh (next.Heeds licence kinds false goal) position
  | _, .take kind, goal, position =>
    kinds position ≠ .eof ∧ licence.takes position ∧
      (∀ renamed, kind = some renamed → licence.makes renamed) ∧ goal (position + 1)
  | fresh, .look distance next, goal, position =>
    (next (kinds (position + distance))).Heeds licence kinds fresh goal position
  | _, .fail failure, _, _ => licence.fails failure
  | _, .label _, goal, position | _, .labelInner _, goal, position => goal position
  | _, .wrap kind, goal, position => licence.makes kind ∧ goal position
  | _, .apart rule, goal, position => rule.Heeds licence kinds true goal position
  | fresh, .call name, goal, position =>
    licence.calls name fresh position ∧ name.Expects [kinds position] ∧ ∀ later, goal later
  | fresh, .within _ rule, goal, position => rule.Heeds licence kinds fresh goal position
  | fresh, .byContext next, goal, position =>
    ∀ context, (next context).Heeds licence kinds fresh goal position
  | fresh, .byDialect next, goal, position =>
    ∀ dialect, (next dialect).Heeds licence kinds fresh goal position
  | fresh, .byOperand next, goal, position =>
    ∀ operand, (next operand).Heeds licence kinds fresh goal position
  | _, .recover recovery rule, goal, position =>
    licence.recovers recovery position ∧ rule.Heeds licence kinds true goal position ∧
      ∀ later, goal later
  | fresh, .attempt trial next otherwise, goal, position =>
    trial.Heeds licence kinds fresh (next.Heeds licence kinds false goal) position ∧
      otherwise.Heeds licence kinds fresh goal position
  | fresh, .naming rule, goal, position => rule.Heeds licence kinds fresh goal position

namespace Rule

variable {licence : Licence} {kinds : Nat → TokenKind} {fresh : Bool} {goal : Nat → Prop}
  {position : Nat} {rule next yes no : Rule} {rules : List Rule} {kind : TokenKind}

attribute [simp] Heeds

@[simp] theorem heeds_ite {c : Prop} [Decidable c] :
    (if c then yes else no).Heeds licence kinds fresh goal position ↔
      (c → yes.Heeds licence kinds fresh goal position) ∧
        (¬c → no.Heeds licence kinds fresh goal position) := by
  split <;> simp [*]

@[simp] theorem heeds_steps_singleton :
    (steps [rule]).Heeds licence kinds fresh goal position ↔
      rule.Heeds licence kinds fresh goal position := Iff.rfl

@[simp] theorem heeds_steps_cons :
    (steps (rule :: next :: rules)).Heeds licence kinds fresh goal position ↔
      rule.Heeds licence kinds fresh
        ((steps (next :: rules)).Heeds licence kinds false goal) position := Iff.rfl

@[simp] theorem heeds_onKind {next : TokenKind → Rule} :
    (onKind next).Heeds licence kinds fresh goal position ↔
      (next (kinds position)).Heeds licence kinds fresh goal position := Iff.rfl

@[simp] theorem heeds_ifAt :
    (ifAt kind yes no).Heeds licence kinds fresh goal position ↔
      (kinds position = kind → yes.Heeds licence kinds fresh goal position) ∧
        (kinds position ≠ kind → no.Heeds licence kinds fresh goal position) := by
  simp [ifAt]

@[simp] theorem heeds_inField {field : Field} :
    (inField field rule).Heeds licence kinds fresh goal position ↔
      rule.Heeds licence kinds fresh goal position := Iff.rfl

@[simp] theorem heeds_child {name : Nonterminal} :
    (child name).Heeds licence kinds fresh goal position ↔
      licence.calls name true position ∧ name.Expects [kinds position] ∧ ∀ later, goal later :=
  Iff.rfl

end Rule

/-- A property of the positions, nodes and diagnostics that a run of a rule comes to. -/
structure Invariant where
  position : Nat → Prop
  node : Node → Prop
  diagnostic : Diagnostic → Prop

def Outcome.Keeps (invariant : Invariant) (goal : Nat → Prop) : Outcome (List Node) → Prop
  | .done nodes cursor =>
    invariant.position cursor.position ∧ Throughout invariant.node nodes ∧ goal cursor.position
  | .failed diagnostic cursor =>
    invariant.position cursor.position ∧ invariant.diagnostic diagnostic

theorem Outcome.Keeps.imp {invariant : Invariant} {goal goal' : Nat → Prop}
    {outcome : Outcome (List Node)} (h : outcome.Keeps invariant goal)
    (hgoal : ∀ position, goal position → goal' position) : outcome.Keeps invariant goal' := by
  cases outcome with
  | done nodes cursor => exact ⟨h.1, h.2.1, hgoal _ h.2.2⟩
  | failed diagnostic cursor => exact h

structure Licence.Keeps (licence : Licence) (stream : TokenStream) (invariant : Invariant) :
    Prop where
  take : ∀ position, licence.takes position → stream.kind position ≠ .eof →
    invariant.position position → invariant.position (position + 1)
  token : ∀ index, invariant.node (.ofToken (stream.get index))
  leaf : ∀ kind span, licence.makes kind → invariant.node (.leaf kind span)
  field : ∀ node field, invariant.node node → invariant.node (node.withField field)
  wrap : ∀ kind offset children, licence.makes kind → Throughout invariant.node children →
    invariant.node (.ofChildren kind offset children)
  fail : ∀ failure name index nodes, licence.fails failure → Throughout invariant.node nodes →
    invariant.diagnostic (failure.diagnostic name (stream.get index) nodes)
  skip : ∀ recovery start (cursor : Cursor), licence.recovers recovery start →
    invariant.position start → start ≤ cursor.position → invariant.position cursor.position →
    invariant.position (cursor.skip recovery stream start).position
  error : ∀ start stop diagnostic, invariant.diagnostic diagnostic →
    invariant.node (stream.errorNode start stop diagnostic)

def Invariant.ofNodes (P : Node → Prop) : Invariant where
  position _ := True
  node := P
  diagnostic _ := True

theorem Outcome.keeps_ofNodes_iff {P : Node → Prop} {outcome : Outcome (List Node)} :
    outcome.Keeps (.ofNodes P) (fun _ => True) ↔
      outcome.Satisfies True fun after _ => Throughout P after := by
  cases outcome <;> simp [Outcome.Keeps, Outcome.Satisfies, Invariant.ofNodes]

theorem Licence.keeps_ofNodes {licence : Licence} {stream : TokenStream} {P : Node → Prop}
    {kinds : List NodeKind} (hother : ∀ node : Node, node.kind ∉ kinds → P node)
    (hfield : ∀ node field, P node → P (node.withField field))
    (hmakes : ∀ kind, licence.makes kind → kind ∉ kinds)
    (htoken : ∀ kind, NodeKind.ofToken kind ∉ kinds) (herror : NodeKind.error ∉ kinds) :
    licence.Keeps stream (.ofNodes P) where
  take _ _ _ _ := trivial
  token index := hother _ (htoken (stream.get index).kind)
  leaf _ _ h := hother _ (hmakes _ h)
  field := hfield
  wrap _ _ _ h _ := hother _ (hmakes _ h)
  fail _ _ _ _ _ _ := trivial
  skip _ _ _ _ _ _ _ := trivial
  error _ _ _ _ := hother _ herror

section Runs

variable {invariant : Invariant} {expand : Nonterminal → Action} {setting : Setting}
  {nodes : List Node} {cursor : Cursor} {goal : Nat → Prop}

theorem Node.Throughout.replaceLast {P : Node → Prop} {change : Node → List Node}
    (hchange : ∀ node, Throughout P [node] → Throughout P (change node)) (h : Throughout P nodes) :
    Throughout P (replaceLast change nodes) := by
  rcases List.eq_nil_or_concat nodes with rfl | ⟨front, last, rfl⟩
  · exact h
  · rw [List.concat_eq_append] at h ⊢
    rw [replaceLast_concat]
    have hparts := Node.throughout_append.mp h
    exact Node.throughout_append.mpr ⟨hparts.1, hchange last hparts.2⟩

theorem Node.throughout_children_errorNode {P : Node → Prop} {stream : TokenStream}
    {start stop : Nat} {diagnostic : Diagnostic}
    (htoken : ∀ index, P (.ofToken (stream.get index))) :
    Throughout P (stream.errorNode start stop diagnostic).children := by
  have htokens (indices : List Nat) :
      Throughout P ((indices.map stream.get).map Node.ofToken) := by
    induction indices with
    | nil => simp
    | cons index indices ih =>
      simp only [List.map_cons, throughout_cons]
      exact ⟨htoken index, throughout_nil, ih⟩
  exact htokens _

theorem Node.throughout_errorNode {P : Node → Prop} {stream : TokenStream} {start stop : Nat}
    {diagnostic : Diagnostic} (htoken : ∀ index, P (.ofToken (stream.get index)))
    (h : P (stream.errorNode start stop diagnostic)) :
    Throughout P [stream.errorNode start stop diagnostic] :=
  throughout_cons.mpr ⟨h, throughout_children_errorNode htoken, throughout_nil⟩

theorem Rule.keeps_recover {recovery : Recovery} {rule : Rule}
    (hexpand : ∀ name, (expand name).Advances)
    (htoken : ∀ index, invariant.node (.ofToken (setting.stream.get index)))
    (herror : ∀ start stop diagnostic, invariant.diagnostic diagnostic →
      invariant.node (setting.stream.errorNode start stop diagnostic))
    (hskip : ∀ failed : Cursor, cursor.position ≤ failed.position →
      invariant.position failed.position →
      invariant.position (failed.skip recovery setting.stream cursor.position).position)
    (hnodes : Throughout invariant.node nodes)
    (hrule : (rule.run expand setting [] cursor).Keeps invariant goal)
    (hgoal : ∀ later, goal later) :
    ((Rule.recover recovery rule).run expand setting nodes cursor).Keeps invariant goal := by
  have hreaches := rule.run_advances hexpand setting [] cursor
  simp only [run, TokenStream.recover]
  split <;> rename_i hrun <;> rw [hrun] at hrule hreaches
  · exact ⟨hrule.1, Node.throughout_append.mpr ⟨hnodes, hrule.2.1⟩, hrule.2.2⟩
  · rename_i diagnostic failed
    by_cases hinternal : diagnostic.isInternal
    · simp only [hinternal, if_true]
      exact hrule
    · simp only [hinternal, Bool.false_eq_true, if_false]
      refine ⟨hskip _ hreaches.position_le hrule.1, ?_, hgoal _⟩
      exact Node.throughout_append.mpr
        ⟨hnodes, Node.throughout_errorNode htoken (herror _ _ _ hrule.2)⟩

theorem Rule.Heeds.keeps {licence : Licence} {rule : Rule} {fresh : Bool}
    (hlicence : licence.Keeps setting.stream invariant)
    (hexpand : ∀ name, (expand name).Advances)
    (hcalls : ∀ (name : Nonterminal) (fresh : Bool) (inner : Setting) (nodes : List Node)
      (cursor : Cursor), inner.stream = setting.stream →
      licence.calls name fresh cursor.position → (fresh → nodes = []) →
      name.Expects [setting.stream.kind cursor.position] →
      invariant.position cursor.position → Throughout invariant.node nodes →
      (expand name inner nodes cursor).Keeps invariant fun _ => True)
    (h : rule.Heeds licence setting.stream.kind fresh goal cursor.position)
    (hfresh : fresh → nodes = []) (hposition : invariant.position cursor.position)
    (hnodes : Throughout invariant.node nodes) :
    (rule.run expand setting nodes cursor).Keeps invariant goal := by
  induction rule generalizing setting nodes cursor goal fresh with
  | empty => exact ⟨hposition, hnodes, h⟩
  | seq first next ihFirst ihNext =>
    have hfirst := ihFirst hlicence hcalls h hfresh hposition hnodes
    simp only [run]
    split <;> rename_i hrun <;> rw [hrun] at hfirst
    · exact ihNext hlicence hcalls hfirst.2.2 (by simp) hfirst.1 hfirst.2.1
    · exact hfirst
  | take kind =>
    obtain ⟨heof, htakes, hmakes, hgoal⟩ := h
    have hadvance := Cursor.advance_position_of_ne_eof heof
    refine ⟨?_, ?_, ?_⟩
    · rw [hadvance]
      exact hlicence.take _ htakes heof hposition
    · simp only [Node.throughout_append, Node.throughout_cons, Node.throughout_nil, and_true]
      cases kind with
      | none => exact ⟨hnodes, hlicence.token _, Node.throughout_nil⟩
      | some renamed => exact ⟨hnodes, hlicence.leaf _ _ (hmakes _ rfl), Node.throughout_nil⟩
    · rw [hadvance]
      exact hgoal
  | look distance next ih => exact ih _ hlicence hcalls h hfresh hposition hnodes
  | fail failure => exact ⟨hposition, hlicence.fail _ _ _ _ h hnodes⟩
  | label field =>
    refine ⟨hposition, hnodes.replaceLast fun node hnode => ?_, h⟩
    simp only [Node.throughout_cons, Node.throughout_nil, and_true] at hnode ⊢
    exact ⟨hlicence.field _ _ hnode.1, hnode.2⟩
  | labelInner field =>
    exact ⟨hposition, hnodes.replaceLast fun node hnode => hnode.innerInField hlicence.field field,
      h⟩
  | wrap kind =>
    have hwrapped : Throughout invariant.node
        [.ofChildren kind (setting.stream.get cursor.position).span.start nodes] := by
      simp only [Node.throughout_cons, Node.throughout_nil, and_true]
      exact ⟨hlicence.wrap _ _ _ h.1 hnodes, hnodes⟩
    simp only [run]
    split
    · exact ⟨hposition, hwrapped, h.2⟩
    · exact ⟨hposition, hwrapped, h.2⟩
  | apart rule ih =>
    have hrule := ih hlicence hcalls h (fun _ => rfl) hposition Node.throughout_nil
    simp only [run]
    split <;> rename_i hrun <;> rw [hrun] at hrule
    · exact ⟨hrule.1, Node.throughout_append.mpr ⟨hnodes, hrule.2.1⟩, hrule.2.2⟩
    · exact hrule
  | call name =>
    obtain ⟨hcallee, hexpects, hgoal⟩ := h
    exact (hcalls name _ setting nodes cursor rfl hcallee hfresh hexpects hposition hnodes).imp
      fun later _ => hgoal later
  | within context rule ih => exact ih hlicence hcalls h hfresh hposition hnodes
  | byContext next ih => exact ih _ hlicence hcalls (h _) hfresh hposition hnodes
  | byDialect next ih => exact ih _ hlicence hcalls (h _) hfresh hposition hnodes
  | byOperand next ih => exact ih _ hlicence hcalls (h _) hfresh hposition hnodes
  | recover recovery rule ih =>
    obtain ⟨hrecovers, hheeds, hgoal⟩ := h
    have hrule := ih hlicence hcalls hheeds (fun _ => rfl) hposition Node.throughout_nil
    exact keeps_recover hexpand hlicence.token hlicence.error
      (fun failed hle => hlicence.skip _ _ failed hrecovers hposition hle) hnodes hrule hgoal
  | attempt trial next otherwise ihTrial ihNext ihOtherwise =>
    have htrial := ihTrial hlicence hcalls h.1 hfresh hposition hnodes
    simp only [run]
    split <;> rename_i hrun <;> rw [hrun] at htrial
    · exact ihNext hlicence hcalls htrial.2.2 (by simp) htrial.1 htrial.2.1
    · -- a trial that fails leaves the fragment and the position as they were
      exact ihOtherwise hlicence hcalls h.2 hfresh hposition hnodes
  | naming rule ih => exact ih hlicence hcalls h hfresh hposition hnodes

theorem Setting.Items.throughout {setting : Setting} {start : Nat}
    {items : List (Node × ItemExtent)} (h : setting.Items start items)
    (hitem : ∀ cursor, (Rule.itemOrError.run Nonterminal.action setting [] cursor).Keeps invariant
      fun _ => True) : Throughout invariant.node (items.map (·.1)) := by
  induction h with
  | finish => exact Node.throughout_nil
  | @item start _ _ _ _ read _ ih =>
    have hdone := hitem (Cursor.resetFurthest ⟨start, start⟩)
    rw [(parseItem_eq_done_iff.mp read).1] at hdone
    exact Node.throughout_append.mpr ⟨hdone.2.1, ih⟩

end Runs

end LosslessSyntax
