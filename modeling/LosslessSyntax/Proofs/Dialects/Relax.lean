import LosslessSyntax.Proofs.Diagnostics
import LosslessSyntax.Proofs.Dialects.Heads
import LosslessSyntax.Proofs.Reuse
/-!
The extended dialect reads what is clean in the canonical dialect in the same way, unless a function
comes right behind the dots of a range. An item whose reading is stuck at its end leaves an error
behind, so in a clean file no item is.
-/
namespace LosslessSyntax

open Node (Throughout Clean)
open Rule

namespace Nonterminal

variable {stream : TokenStream}

theorem allMirror_run (hrange : stream.SplitsRanges) (depth : Nat) :
    AllMirror stream (run depth) := by
  induction depth with
  | zero => exact fun _ _ _ _ _ _ _ _ _ => trivial
  | succ depth ih =>
    rintro name setting nodes cursor cursor' rfl hdialect hposition hproper
    have hpaired : setting.Paired (run depth) := ⟨stops_run _ depth, ih, hdialect⟩
    by_cases hname : name.isDivided
    · cases name with
      | expression power => exact agrees_expression hpaired hproper cursor' hposition
      | operators power => exact agrees_operators hpaired hproper hrange cursor' hposition
      | primary => exact agrees_primary hpaired cursor' hposition
      | typeNameExpression => exact agrees_typeNameExpression hpaired hproper cursor' hposition
      | unary => exact agrees_unary hpaired cursor' hposition
      | conditional => exact agrees_conditional hpaired cursor' hposition
      | ifExpression => exact agrees_ifExpression hpaired cursor' hposition
      | forStatement => exact agrees_forStatement hpaired cursor' hposition
      | _ => contradiction
    · rw [Bool.not_eq_true] at hname
      refine ((name.mirrors_rule hname).outcome (run_retains depth) (allBalk_run _ depth) ih hdialect
        hposition).imp (fun _ => id) fun after position hsticks => ⟨hsticks, ?_⟩
      cases name <;> trivial

theorem retains_action (name : Nonterminal) : Action.Retains name.action :=
  fun setting => name.run_retains (callDepth setting.stream) setting

theorem allBalk_action (stream : TokenStream) : AllBalk stream action :=
  fun name setting nodes cursor stuck hstream =>
    allBalk_run stream (callDepth setting.stream) name setting nodes cursor stuck hstream

theorem allMirror_action (hrange : stream.SplitsRanges) : AllMirror stream action :=
  fun name setting nodes cursor cursor' hstream =>
    allMirror_run hrange (callDepth setting.stream) name setting nodes cursor cursor' hstream

end Nonterminal

namespace Setting

variable {stream : TokenStream} {start : Nat} {item item' : Node × ItemExtent}
  {after after' : Cursor}

theorem not_clean_of_openCurly (hcurly : stream.kind start = .openCurly)
    (h : (top stream .canonical).parseItem ⟨start, start⟩ = .done item after) :
    ¬Throughout Clean [item.1] := by
  have hbalks : Rule.itemOrError.Balks stream.kind (fun _ => False) start := by
    simp [itemOrError, hcurly]
  have hrun : (itemOrError.run Nonterminal.action (top stream .canonical) []
      (Cursor.resetFurthest ⟨start, start⟩)).Balks fun _ _ => False :=
    hbalks.outcome Nonterminal.retains_action (Nonterminal.allBalk_action stream) rfl
  rw [(parseItem_eq_done_iff.mp h).1] at hrun
  exact hrun

theorem parseItem_extended (hrange : stream.SplitsRanges)
    (h : (top stream .canonical).parseItem ⟨start, start⟩ = .done item after)
    (h' : (top stream .extended).parseItem ⟨start, start⟩ = .done item' after')
    (hclean : Throughout Clean [item.1]) :
    item'.1 = item.1 ∧ item'.2.endToken = item.2.endToken ∨
      stream.kind item.2.endToken = .openCurly := by
  have hmirrors : itemOrError.Mirrors stream.kind (fun _ => True)
      (fun position => stream.kind position = .openCurly) start := by
    simp [itemOrError]
  have hrun : (itemOrError.run Nonterminal.action (top stream .canonical) []
      (Cursor.resetFurthest ⟨start, start⟩)).Mirrors (fun _ => True)
        (fun _ position => stream.kind position = .openCurly)
        (itemOrError.run Nonterminal.action (top stream .extended) []
          (Cursor.resetFurthest ⟨start, start⟩)) :=
    hmirrors.outcome Nonterminal.retains_action (Nonterminal.allBalk_action stream)
      (Nonterminal.allMirror_action hrange) rfl rfl
  obtain ⟨hread, hextent⟩ := parseItem_eq_done_iff.mp h
  obtain ⟨hread', hextent'⟩ := parseItem_eq_done_iff.mp h'
  rw [hread, hread'] at hrun
  rw [hextent, hextent']
  refine (hrun hclean).imp_left ?_
  rintro ⟨later, hdone, hposition, -⟩
  simp only [Outcome.done.injEq, List.cons.injEq, and_true] at hdone
  obtain ⟨hnode, rfl⟩ := hdone
  exact ⟨hnode, hposition⟩

theorem Items.map_fst_eq {items items' : List (Node × ItemExtent)} (hrange : stream.SplitsRanges)
    (h : (top stream .canonical).Items start items)
    (h' : (top stream .extended).Items start items')
    (hclean : Throughout Clean (items.map (·.1))) : items'.map (·.1) = items.map (·.1) := by
  induction h generalizing items' with
  | finish eof =>
    cases h' with
    | finish => rfl
    | item kind => contradiction
  | @item start item after items kind read tail ih =>
    cases h' with
    | finish eof => contradiction
    | @item _ item' after' items' _ read' tail' =>
      have hsplit : Throughout Clean ([item.1] ++ items.map (·.1)) := hclean
      obtain ⟨hfirst, htail⟩ := Node.throughout_append.mp hsplit
      rcases parseItem_extended hrange read read' hfirst with ⟨hnode, hend⟩ | hcurly
      · rw [List.map_cons, List.map_cons, hnode, ih (hend ▸ tail') htail]
      · -- a brace begins no item, so the next item would be an error
        cases tail with
        | finish eof => exact absurd (hcurly.symm.trans eof) (by decide)
        | item _ read _ =>
          exact absurd (Node.throughout_append.mp htail).1 (not_clean_of_openCurly hcurly read)

end Setting

namespace SyntaxTree

variable {source : String} {tree : SyntaxTree}

/-- A source without errors in the canonical dialect has none in the extended one, and the same tree,
if no range ends right in front of a function and no head of an `if` or a `for` ends in a name of an
inner branch with a brace behind it. -/
theorem parse_extended (hparse : parse source .canonical = .ok tree)
    (herrors : tree.hasErrors = false) (hranges : tree.stream.SplitsRanges)
    (hheads : ∀ node ∈ tree.root.preorder, node.misleads = false) :
    ∃ extended, parse source .extended = .ok extended ∧ extended.root = tree.root ∧
      extended.hasErrors = false := by
  obtain ⟨hlength, stream, items, hof, hitems, rfl⟩ := eq_ofItems_of_parse hparse
  obtain ⟨stream', items', hof', hitems', htree'⟩ := parse_eq_ok .extended hlength
  obtain rfl := hof.unique hof'
  have hclean : Throughout Clean (items.map (·.1)) := fun node hnode =>
    ⟨kind_ne_error_of_hasErrors herrors node hnode, hheads node (mem_preorder_ofItems hnode)⟩
  have hroot : (ofItems source stream items' .extended).root =
      (ofItems source stream items .canonical).root := by
    simp only [ofItems, rootOf, hitems.map_fst_eq hranges hitems' hclean]
  exact ⟨_, htree', hroot, by rwa [hasErrors, hroot]⟩

/-- Names in front of blocks, and a range between them. -/
theorem parse_extended_loop :
    ∃ tree, parse "fn f() \x7b for i in a..b \x7b if i \x7b return \x7d \x7d \x7d" .canonical =
        .ok tree ∧
      tree.hasErrors = false ∧ tree.stream.SplitsRanges ∧
      (∀ node ∈ tree.root.preorder, node.misleads = false) ∧
      ∃ extended, parse "fn f() \x7b for i in a..b \x7b if i \x7b return \x7d \x7d \x7d" .extended =
          .ok extended ∧
        extended.root = tree.root ∧ extended.hasErrors = false := by
  have hclean : ∃ tree,
      parse "fn f() \x7b for i in a..b \x7b if i \x7b return \x7d \x7d \x7d" .canonical = .ok tree ∧
        tree.hasErrors = false ∧ tree.stream.SplitsRanges ∧
        ∀ node ∈ tree.root.preorder, node.misleads = false :=
    exists_parse_eq_ok (by decide +kernel)
  obtain ⟨tree, hparse, herrors, hranges, hheads⟩ := hclean
  exact ⟨tree, hparse, herrors, hranges, hheads, parse_extended hparse herrors hranges hheads⟩

/-- The end of the range is missing, and the extended dialect takes the function that follows for
it. -/
theorem parse_extended_function :
    ∃ tree, parse "const a = 1.. fn f()" .canonical = .ok tree ∧ tree.hasErrors = false ∧
      ∃ extended, parse "const a = 1.. fn f()" .extended = .ok extended ∧
        extended.hasErrors = true := by
  have hcanonical : ∃ tree, parse "const a = 1.. fn f()" .canonical = .ok tree ∧
      tree.hasErrors = false :=
    exists_parse_eq_ok (by decide +kernel)
  have hextended : ∃ tree, parse "const a = 1.. fn f()" .extended = .ok tree ∧
      tree.hasErrors = true :=
    exists_parse_eq_ok (by decide +kernel)
  obtain ⟨tree, hparse, herrors⟩ := hcanonical
  exact ⟨tree, hparse, herrors, hextended⟩

/-- A name at the end of a branch inside a condition. -/
example :
    ((parse "fn f() \x7b if if a b \x7b \x7d c \x7d" .canonical).toOption.any fun tree =>
        !tree.hasErrors && !tree.root.preorder.any (·.kind == .structLiteral)) = true ∧
      ((parse "fn f() \x7b if if a b \x7b \x7d c \x7d" .extended).toOption.any fun tree =>
        tree.root.preorder.any (·.kind == .structLiteral)) = true := by
  decide +kernel

end SyntaxTree

end LosslessSyntax
