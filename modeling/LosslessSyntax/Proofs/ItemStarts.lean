import LosslessSyntax.Proofs.Grammar.Licences
import LosslessSyntax.Proofs.SourceFile
/-!
Where items can begin: a word that begins an item is not read over by the item before it, whatever
is wrong with that one, unless the arms of a `match` have been opened. Arms are the one body that
does not end at such words.
-/
namespace LosslessSyntax

open Node (Throughout)

namespace TokenStream

variable (stream : TokenStream) (first : Nat)

/-- Arms have been opened behind `first`, and the index is behind their opening brace. -/
def InArms (index : Nat) : Prop :=
  ∃ keyword, first ≤ keyword ∧ keyword + 1 < index ∧ stream.kind keyword = .matchKeyword ∧
    stream.kind (keyword + 1) = .openCurly

/-- The tokens from `first` up to `stop` have words that begin items only at their front, but for
those behind the opening of arms. -/
structure StartsAhead (stop : Nat) : Prop where
  le : first ≤ stop
  front : ∀ index, first ≤ index → index < stop → Grammar.opensItem (stream.kind index) →
    Nonterminal.OpensAt stream.kind first index ∨ stream.InArms first index

variable {stream first} {start stop : Nat} {recovery : Recovery} {cursor : Cursor}

theorem InArms.of_le (h : stream.InArms first start) (hle : start ≤ stop) :
    stream.InArms first stop := by
  obtain ⟨keyword, hfirst, hlt, hkinds⟩ := h
  exact ⟨keyword, hfirst, by omega, hkinds⟩

namespace StartsAhead

theorem refl (stream : TokenStream) (first : Nat) : stream.StartsAhead first first :=
  ⟨le_rfl, fun index hle hlt => by omega⟩

theorem succ (h : stream.StartsAhead first stop)
    (hkind : Grammar.opensItem (stream.kind stop) → Nonterminal.OpensAt stream.kind first stop) :
    stream.StartsAhead first (stop + 1) := by
  refine ⟨h.le.trans (Nat.le_succ _), fun index hle hlt hopens => ?_⟩
  rcases Nat.lt_succ_iff_lt_or_eq.mp hlt with hlt | rfl
  · exact h.front index hle hlt hopens
  · exact .inl (hkind hopens)

theorem of_inArms (h : stream.StartsAhead first start) (harms : stream.InArms first start)
    (hle : start ≤ stop) : stream.StartsAhead first stop := by
  refine ⟨h.le.trans hle, fun index hfirst hlt hopens => ?_⟩
  rcases Nat.lt_or_ge index start with hbefore | hbehind
  · exact h.front index hfirst hbefore hopens
  · exact .inr (harms.of_le hbehind)

theorem advance (h : stream.StartsAhead first cursor.position)
    (hkind : Grammar.opensItem (stream.kind cursor.position) →
      Nonterminal.OpensAt stream.kind first cursor.position) :
    stream.StartsAhead first (cursor.advance stream).position := by
  unfold Cursor.advance
  split
  · exact h
  · exact h.succ hkind

theorem skipUntil (h : stream.StartsAhead first cursor.position)
    (hstop : ∀ kind, Grammar.opensItem kind → kind ∈ recovery.stop) (fuel : Nat) :
    stream.StartsAhead first (cursor.skipUntil recovery stream fuel).position := by
  induction fuel generalizing cursor with
  | zero => exact h
  | succ fuel ih =>
    simp only [Cursor.skipUntil]
    split
    · exact h
    rename_i hgoes
    have hinner : Grammar.opensItem (stream.kind cursor.position) →
        Nonterminal.OpensAt stream.kind first cursor.position :=
      fun hopens => absurd (.inr (hstop _ hopens)) hgoes
    split
    · exact h.advance hinner
    · exact ih (h.advance hinner)

theorem skip (h : stream.StartsAhead first cursor.position)
    (hstop : ∀ kind, Grammar.opensItem kind → kind ∈ recovery.stop)
    (hforce : recovery.forceProgress → Grammar.opensItem (stream.kind start) →
      Nonterminal.OpensAt stream.kind first start) :
    stream.StartsAhead first (cursor.skip recovery stream start).position := by
  simp only [Cursor.skip]
  split
  · rename_i hforced
    obtain ⟨rfl, hprogress, -⟩ := hforced
    have hmoved := h.advance (hforce hprogress)
    split
    · exact hmoved
    · exact hmoved.skipUntil hstop _
  · exact h.skipUntil hstop _

end StartsAhead

end TokenStream

def Invariant.startsAhead (stream : TokenStream) (first : Nat) : Invariant where
  position := stream.StartsAhead first
  node _ := True
  diagnostic _ := True

namespace Nonterminal

structure BeginsAt (stream : TokenStream) (first start : Nat) (name : Nonterminal) : Prop where
  item : name = .item → start = first
  form : Grammar.itemForm? (stream.kind start) = some name →
    Grammar.opensItem (stream.kind start) → OpensAt stream.kind first start
  arms : name = .arms → stream.InArms first start

variable {stream : TokenStream} {first start position : Nat} {name callee : Nonterminal}

theorem keeps_startsAhead (hname : name ≠ .arms) (h : name.BeginsAt stream first start) :
    (name.licence stream.kind start).Keeps stream (.startsAhead stream first) where
  take index htakes _ hindex := by
    refine TokenStream.StartsAhead.succ hindex fun hopens => ?_
    rcases htakes hopens with ⟨rfl, hfront⟩ | ⟨rfl, hform⟩
    · exact h.item rfl ▸ hfront
    · exact h.form hform hopens
  token _ := trivial
  leaf _ _ _ := trivial
  field _ _ _ := trivial
  wrap _ _ _ _ _ := trivial
  fail _ _ _ _ _ _ := trivial
  skip recovery index cursor hrecovers _ _ hcursor := by
    rcases hrecovers with rfl | ⟨hstop, hforce⟩
    · contradiction
    · refine TokenStream.StartsAhead.skip hcursor hstop fun hprogress hopens => ?_
      rw [hforce hprogress] at hopens
      contradiction
  error _ _ _ _ := trivial

theorem BeginsAt.of_calls (hname : name ≠ .arms) (h : name.BeginsAt stream first start)
    (hfirst : first ≤ start) {fresh : Bool}
    (hcalls : (name.licence stream.kind start).calls callee fresh position) :
    callee.BeginsAt stream first position := by
  rcases hcalls.2.1 with hinner | ⟨rfl, hform, hopens⟩ | ⟨rfl, hopened⟩
  · refine ⟨?_, fun hform => ?_, ?_⟩
    · rintro rfl
      contradiction
    · revert hform
      fun_cases Grammar.itemForm? (stream.kind position) <;> rintro ⟨⟩ <;> contradiction
    · rintro rfl
      contradiction
  · refine ⟨?_, fun _ => h.item rfl ▸ hopens, ?_⟩
    · rintro rfl
      revert hform
      fun_cases Grammar.itemForm? (stream.kind position) <;> simp
    · rintro rfl
      revert hform
      fun_cases Grammar.itemForm? (stream.kind position) <;> simp
  · refine ⟨by simp, fun hform => ?_, fun _ => ?_⟩
    · revert hform
      fun_cases Grammar.itemForm? (stream.kind position) <;> simp
    · rcases hopened with rfl | ⟨hkeyword, hbrace, rfl⟩
      · contradiction
      · exact ⟨start, hfirst, by omega, hkeyword, hbrace⟩

theorem keeps_startsAhead_run (stream : TokenStream) (first depth : Nat) (name : Nonterminal)
    (setting : Setting) (nodes : List Node) (cursor : Cursor) (hstream : setting.stream = stream)
    (hfresh : name.isFresh → nodes = [])
    (hexpects : name.Expects [stream.kind cursor.position])
    (hbegins : name.BeginsAt stream first cursor.position)
    (hposition : stream.StartsAhead first cursor.position) :
    (run depth name setting nodes cursor).Keeps (.startsAhead stream first) fun _ => True := by
  induction depth generalizing name setting nodes cursor with
  | zero => exact ⟨hposition, trivial⟩
  | succ depth ih =>
    subst hstream
    by_cases hname : name = .arms
    · have hreaches := name.run_advances (depth + 1) setting nodes cursor
      have hlater := hposition.of_inArms (hbegins.arms hname) hreaches.position_le
      rcases hrun : run (depth + 1) name setting nodes cursor with
        ⟨after, last⟩ | ⟨diagnostic, last⟩ <;> rw [hrun] at hlater
      · exact ⟨hlater, fun _ _ => trivial, trivial⟩
      · exact ⟨hlater, trivial⟩
    · refine (heeds_rule name setting.stream.kind cursor.position hexpects).keeps
        (keeps_startsAhead hname hbegins) (run_advances depth) ?_ hfresh hposition
        fun _ _ => trivial
      intro callee _ inner nodes' cursor' hstream hcalls hfresh' hexpects' hposition' _
      exact ih callee inner nodes' cursor' hstream (fun h => hfresh' (hcalls.1 h)) hexpects'
        (hbegins.of_calls hname hposition.le hcalls) hposition'

end Nonterminal

theorem Setting.Items.startsAhead {stream : TokenStream} {dialect : Dialect} {start : Nat}
    {items : List (Node × ItemExtent)} (h : (top stream dialect).Items start items) :
    ∀ item ∈ items, stream.StartsAhead item.2.firstToken item.2.endToken := by
  have hitem (first : Nat) :
      (Rule.itemOrError.run Nonterminal.action (top stream dialect) []
        (Cursor.resetFurthest ⟨first, first⟩)).Keeps (.startsAhead stream first)
        fun _ => True := by
    refine Rule.keeps_recover Nonterminal.action_advances (fun _ => trivial)
      (fun _ _ _ _ => trivial) (fun failed _ hfailed => ?_) Node.throughout_nil ?_ fun _ => trivial
    · exact TokenStream.StartsAhead.skip hfailed (Grammar.mem_stop_of_opensItem (by decide))
        fun _ _ => .inl rfl
    · exact Nonterminal.keeps_startsAhead_run stream first _ .item _ _ _ rfl (fun _ => rfl) trivial
        ⟨fun _ => rfl, fun _ _ => .inl rfl, by simp⟩ (.refl stream first)
  induction h with
  | finish => simp
  | @item start item after items _ read _ ih =>
    refine List.forall_mem_cons.mpr ⟨?_, ih⟩
    obtain ⟨hrun, hextent⟩ := parseItem_eq_done_iff.mp read
    have hdone := hitem start
    rw [hrun] at hdone
    rw [hextent]
    exact hdone.1

namespace SyntaxTree

/-- The words that can only begin an item are in an item of the tree at its front, or right behind
the `pub` at its front, or behind a `match` and its opening brace. -/
theorem startsAhead_parse (source : String) (dialect : Dialect)
    (h : Text.byteLength source.toList ≤ maxSourceLength) :
    ∃ tree, parse source dialect = .ok tree ∧ ∀ item ∈ tree.items, ∀ index,
      item.firstToken ≤ index → index < item.endToken →
      Grammar.opensItem (tree.stream.kind index) →
      index = item.firstToken ∨
        (index = item.firstToken + 1 ∧ tree.stream.kind item.firstToken = .pubKeyword) ∨
        ∃ keyword, item.firstToken ≤ keyword ∧ keyword + 1 < index ∧
          tree.stream.kind keyword = .matchKeyword ∧
          tree.stream.kind (keyword + 1) = .openCurly := by
  obtain ⟨stream, items, -, hitems, hparse⟩ := parse_eq_ok dialect h
  refine ⟨_, hparse, fun item hitem index hfirst hlt hopens => ?_⟩
  obtain ⟨⟨node, extent⟩, hmem, rfl⟩ := List.mem_map.mp hitem
  exact or_assoc.mp ((hitems.startsAhead _ hmem).front index hfirst hlt hopens)

/-- A struct behind a function that is not closed. -/
theorem startsAhead_parse_unclosed :
    Text.byteLength "fn f() \x7b a[ pub struct S \x7b\x7d".toList ≤ maxSourceLength ∧
      ∃ tree, parse "fn f() \x7b a[ pub struct S \x7b\x7d" .canonical = .ok tree ∧
        ∀ item ∈ tree.items, ∀ index, item.firstToken ≤ index → index < item.endToken →
          Grammar.opensItem (tree.stream.kind index) →
          index = item.firstToken ∨
            (index = item.firstToken + 1 ∧ tree.stream.kind item.firstToken = .pubKeyword) ∨
            ∃ keyword, item.firstToken ≤ keyword ∧ keyword + 1 < index ∧
              tree.stream.kind keyword = .matchKeyword ∧
              tree.stream.kind (keyword + 1) = .openCurly :=
  ⟨by decide, startsAhead_parse "fn f() \x7b a[ pub struct S \x7b\x7d" .canonical (by decide)⟩

/-- Arms that are not closed read over a struct behind them. -/
theorem startsAhead_parse_arms :
    ∃ tree, parse "fn f() \x7b a match \x7b struct S \x7b\x7d \x7d" .canonical = .ok tree ∧
      ∃ item ∈ tree.items, ∃ index < item.endToken, item.firstToken + 1 < index ∧
        tree.stream.kind index = .structKeyword :=
  exists_parse_eq_ok (by decide +kernel)

end SyntaxTree

end LosslessSyntax
