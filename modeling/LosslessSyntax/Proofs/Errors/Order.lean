import LosslessSyntax.Proofs.Errors.Productions
/-!
The list of the errors of a tree: it has every diagnostic of the tree and is in source order without
repetitions, unless an error stands for a malformed token before the one that its own diagnostic is
about.
-/
namespace LosslessSyntax

open Node (Throughout)
open Text (byteLength)

namespace SyntaxTree

/-- The errors are the diagnostics of the tree. They are in source order exactly if each error node
begins to report no later than its tokens do, and then there are no repetitions. That is so for one
if no token is malformed. In any case the same error is not listed twice in a row, nor three
times. -/
structure ListsErrors (tree : SyntaxTree) : Prop where
  mem : ∀ diagnostic, diagnostic ∈ tree.errors ↔
    ∃ node ∈ tree.root.preorder, node.diagnostic = some diagnostic
  ordered : tree.errors.Pairwise Diagnostic.Before ↔ ∀ node ∈ tree.root.preorder, node.Prompt
  nodup : (∀ node ∈ tree.root.preorder, node.Prompt) → tree.errors.Nodup
  regular : (∀ token ∈ tree.tokens, ∀ reason, token.kind ≠ .error reason) →
    ∀ node ∈ tree.root.preorder, node.Prompt
  apart : tree.errors.IsChain (· ≠ ·)
  twice : ∀ diagnostic, tree.errors.count diagnostic ≤ 2

theorem listsErrors_ofItems {source : String} {stream : TokenStream} {dialect : Dialect}
    {items : List (Node × ItemExtent)} (hordered : stream.Ordered)
    (hitems : (Setting.top stream dialect).Items 0 items) :
    (ofItems source stream items dialect).ListsErrors := by
  obtain ⟨stop, solid, htraced⟩ := hitems.traced hordered (Nat.zero_le _) false
  obtain ⟨runs, hruns, hreported, hprompt⟩ := htraced.path
  set root := (ofItems source stream items dialect).root
  have hdiagnostics : root.diagnostics = runs.flatten := diagnostics_ofItems.trans hreported
  have hinside : (∀ node ∈ root.preorder, node.Prompt) ↔
      Throughout Node.Prompt (items.map (·.1)) := by
    have hfile : root.Prompt := fun hkind => NodeKind.noConfusion hkind
    rw [forall_mem_preorder_ofItems, and_iff_right hfile]
  have hpairwise : root.diagnostics.Pairwise Diagnostic.Before ↔
      ∀ node ∈ root.preorder, node.Prompt := by
    rw [hinside, hprompt, hdiagnostics, hruns.pairwise_iff hordered]
  have htwice (offset : UInt32) : (Diagnostic.starts root.diagnostics).count offset ≤ 2 := by
    rw [hdiagnostics]
    exact (hruns.sparse hordered).twice offset
  constructor
  case mem =>
    intro diagnostic
    rw [errors, mem_dropRepeats, Node.diagnostics, List.mem_filterMap]
  case ordered => rw [errors, pairwise_dropRepeats_iff, hpairwise]
  case nodup => exact fun h => nodup_dropRepeats (hpairwise.mpr h) htwice
  case regular =>
    intro htokens
    rw [hinside, hprompt]
    refine hruns.pairwise_of_regular fun index => TokenStream.lexical_eq_nil fun reason => ?_
    exact htokens _ (stream.get_mem_toList index) reason
  case apart =>
    rw [errors, dropRepeats_eq_destutter]
    exact List.isChain_destutter _ _
  case twice =>
    intro diagnostic
    rw [errors, dropRepeats_eq_destutter]
    calc (root.diagnostics.destutter (· ≠ ·)).count diagnostic
      _ ≤ root.diagnostics.count diagnostic := (List.destutter_sublist _ _).count_le _
      _ ≤ (Diagnostic.starts root.diagnostics).count diagnostic.span.start :=
        Diagnostic.count_le_count_starts _ _
      _ ≤ 2 := htwice _

/-- The errors of the tree of a source are all its diagnostics, in source order and without
repetitions but where an error node reports a token behind a malformed one of its own. -/
theorem listsErrors_parse (source : String) (dialect : Dialect)
    (h : byteLength source.toList ≤ maxSourceLength) :
    ∃ tree, parse source dialect = .ok tree ∧ tree.source = source ∧ tree.ListsErrors := by
  obtain ⟨stream, items, hof, hitems, hparse⟩ := parse_eq_ok dialect h
  exact ⟨_, hparse, rfl, listsErrors_ofItems (hof.ordered h) hitems⟩

/-- A string that is not closed, where an item should be. -/
theorem listsErrors_parse_unclosed :
    byteLength "\"abc".toList ≤ maxSourceLength ∧
      ∃ tree, parse "\"abc" .canonical = .ok tree ∧ tree.source = "\"abc" ∧ tree.ListsErrors :=
  ⟨by decide, listsErrors_parse _ .canonical (by decide)⟩

/-- A malformed type behind a malformed list of parameters: the error that stands for the whole
function is about the type, and its leaves report the list and then the type again. -/
theorem listsErrors_parse_flattened :
    ∃ tree, parse "fn f(@) &~" .canonical = .ok tree ∧
      ¬tree.errors.Pairwise Diagnostic.Before ∧ ¬tree.errors.Nodup :=
  exists_parse_eq_ok (by decide +kernel)

end SyntaxTree

end LosslessSyntax
