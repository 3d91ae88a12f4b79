import LosslessSyntax.Edit.Reparse
import LosslessSyntax.Proofs.Reuse
/-!
Incremental parsing gives what parsing the whole source gives, however long the chain of revisions
is, and whether or not their edits are a true account of them.
-/
namespace LosslessSyntax

open Text (byteLength)

structure Revision where
  source : String
  edits : List Edit
deriving DecidableEq, Repr

namespace SyntaxTree

variable {oldSource source : String} {dialect : Dialect} {previous : SyntaxTree}

/-- What is read of a source and of its revisions, each by way of the tree of the one before. -/
def revisions (dialect : Dialect) (source : String) (steps : List Revision) :
    List (Except Diagnostic SyntaxTree) :=
  steps.scanl (fun last step => last >>= (·.reparse step.source step.edits)) (parse source dialect)

theorem reparseRange_eq_ok {range : ChangedRange} (h : parse oldSource dialect = .ok previous)
    (haccounts : range.Accounts oldSource source) :
    ∃ tree rest, parse source dialect = .ok tree ∧
      previous.reparseRange source range = .ok (tree, rest) := by
  obtain ⟨-, oldStream, oldItems, hold, holdItems, rfl⟩ := eq_ofItems_of_parse h
  obtain ⟨stream, items, hnew, hitems, hparse⟩ := parse_eq_ok dialect haccounts.newBound
  obtain ⟨stream', items', rest, hnew', hitems', htokens⟩ :=
    ofTokens_eq_ok source dialect
      (some (Reuse.start (ofItems oldSource oldStream oldItems dialect) range))
      (fun stream hstream => by
        rintro _ ⟨⟩
        exact Setting.honest haccounts hold hstream holdItems)
  obtain rfl := hnew'.unique hnew
  obtain rfl := hitems'.unique hitems
  refine ⟨_, rest, hparse, ?_⟩
  have htokensOld : (ofItems oldSource oldStream oldItems dialect).tokens =
      tokenizeSignificant oldSource := hold
  rw [reparseRange, htokensOld,
    relex_eq haccounts.agrees haccounts.oldBound haccounts.newBound]
  exact htokens

/-- One step: neither the tree before nor what the edits say makes a difference. -/
theorem reparse_eq_parse (edits : List Edit) (h : parse oldSource dialect = .ok previous) :
    previous.reparse source edits = parse source dialect := by
  by_cases hlong : maxSourceLength < byteLength source.toList
  · rw [parse_eq_error hlong, reparse, Diagnostic.checkLength, if_pos hlong]
    rfl
  have hcheck : Diagnostic.checkLength (byteLength source.toList) = .ok () := if_neg hlong
  obtain ⟨holdBound, stream, items, -, -, htree⟩ := eq_ofItems_of_parse h
  have hsource : previous.source = oldSource := by rw [htree]; rfl
  have hdialect : previous.dialect = dialect := by rw [htree]; rfl
  rcases hrange : previous.changeBy? source edits with _ | range
  · simp only [reparse, hcheck, hrange, hdialect]
    rfl
  · obtain ⟨-, hagrees⟩ := Option.filter_eq_some_iff.mp hrange
    rw [hsource, ChangedRange.agrees, decide_eq_true_iff] at hagrees
    obtain ⟨tree, rest, hparse, hreparse⟩ :=
      reparseRange_eq_ok h ⟨hagrees, holdBound, Nat.le_of_not_lt hlong⟩
    simp only [reparse, hcheck, hrange, hreparse, hparse]
    rfl

theorem revisions_cons (dialect : Dialect) {source : String} (step : Revision)
    (steps : List Revision) (h : byteLength source.toList ≤ maxSourceLength) :
    revisions dialect source (step :: steps) =
      parse source dialect :: revisions dialect step.source steps := by
  obtain ⟨stream, items, -, -, hparse⟩ := parse_eq_ok dialect h
  have hstep : (parse source dialect >>= (·.reparse step.source step.edits)) =
      parse step.source dialect := by
    rw [hparse]
    exact reparse_eq_parse step.edits hparse
  rw [revisions, List.scanl_cons, hstep, revisions]

/-- However a source is revised, each revision is read as if it were the first: there is a tree for
it, and it is that of the whole source. -/
theorem revisions_eq_parse (dialect : Dialect) (source : String) (steps : List Revision)
    (h : ∀ text ∈ source :: steps.map (·.source), byteLength text.toList ≤ maxSourceLength) :
    revisions dialect source steps =
        (source :: steps.map (·.source)).map (parse · dialect) ∧
      ∀ result ∈ revisions dialect source steps, ∃ tree, result = .ok tree := by
  have hrevisions : revisions dialect source steps =
      (source :: steps.map (·.source)).map (parse · dialect) := by
    induction steps generalizing source with
    | nil => rfl
    | cons step steps ih =>
      obtain ⟨hsource, hsteps⟩ := List.forall_mem_cons.mp h
      rw [revisions_cons dialect step steps hsource, ih step.source hsteps]
      rfl
  refine ⟨hrevisions, fun result hresult => ?_⟩
  rw [hrevisions] at hresult
  obtain ⟨text, htext, rfl⟩ := List.mem_map.mp hresult
  obtain ⟨stream, items, -, -, hparse⟩ := parse_eq_ok dialect (h text htext)
  exact ⟨_, hparse⟩

/-- A true account by which the first function is taken over, and one that reaches past the end. -/
theorem revisions_eq_parse_misled :
    (∀ text ∈ ["fn f() \x7b\x7d fn g() \x7b\x7d", "fn f() \x7b\x7d fn h() \x7b\x7d", "fn h() \x7b"],
      byteLength text.toList ≤ maxSourceLength) ∧
    revisions .extended "fn f() \x7b\x7d fn g() \x7b\x7d"
        [⟨"fn f() \x7b\x7d fn h() \x7b\x7d", [⟨13, 1, 1⟩]⟩, ⟨"fn h() \x7b", [⟨15, 9, 0⟩]⟩] =
      ["fn f() \x7b\x7d fn g() \x7b\x7d", "fn f() \x7b\x7d fn h() \x7b\x7d", "fn h() \x7b"].map
        (parse · .extended) ∧
    ∀ result ∈ revisions .extended "fn f() \x7b\x7d fn g() \x7b\x7d"
        [⟨"fn f() \x7b\x7d fn h() \x7b\x7d", [⟨13, 1, 1⟩]⟩, ⟨"fn h() \x7b", [⟨15, 9, 0⟩]⟩],
      ∃ tree, result = .ok tree :=
  ⟨by decide, revisions_eq_parse .extended _ _ (by decide)⟩

end SyntaxTree

end LosslessSyntax
