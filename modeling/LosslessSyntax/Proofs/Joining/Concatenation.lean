import LosslessSyntax.Proofs.Joining.Productions
import LosslessSyntax.Proofs.Lexing.Seams
import LosslessSyntax.Proofs.Lossless
import LosslessSyntax.Proofs.Reuse
import LosslessSyntax.Proofs.Spans.Covers
/-!
Sources one below the other: behind a source that is read without errors, a source that begins with
an item is read as it is read by itself. So the items of the two together are those of the first and
those of the second, moved.
-/
namespace LosslessSyntax

open Node (Throughout Solid)
open Text (byteLength)

/-- The tokens of the first stream without its end of file, and those of the second one, moved. -/
def TokenStream.Joins (front back : TokenStream) (distance : Int) (whole : TokenStream) : Prop :=
  whole.toList = front.body.toList ++ back.toList.map (·.shifted distance)

namespace TokenStream.Joins

variable {front back whole : TokenStream} {distance : Int}

theorem size_eq (h : front.Joins back distance whole) :
    whole.body.size = front.body.size + back.body.size := by
  have hlength := congrArg List.length h
  simp [toList] at hlength
  omega

theorem get_front (h : front.Joins back distance whole) {index : Nat}
    (hindex : index < front.body.size) : whole.get index = front.get index := by
  have hsize := h.size_eq
  have hlt : index < whole.toList.length := by simp [toList]; omega
  rw [get_eq_getElem hlt]
  simp only [show whole.toList = _ from h]
  rw [List.getElem_append_left (by simpa using hindex)]
  simp [get, hindex]

theorem get_back (h : front.Joins back distance whole) {index : Nat}
    (hindex : index ≤ back.body.size) :
    whole.get (front.body.size + index) = (back.get index).shifted distance := by
  have hsize := h.size_eq
  have hlt : front.body.size + index < whole.toList.length := by simp [toList]; omega
  rw [get_eq_getElem hlt, get_eq_getElem (show index < back.toList.length by simp [toList]; omega)]
  simp only [show whole.toList = _ from h]
  rw [List.getElem_append_right (by simp)]
  simp

theorem kind_back (h : front.Joins back distance whole) (index : Nat) :
    whole.kind (front.body.size + index) = back.kind index := by
  have hsize := h.size_eq
  by_cases hindex : index ≤ back.body.size
  · rw [kind, h.get_back hindex, Token.shifted_kind, kind]
  · rw [kind_eq_eof_of_le (by omega), kind_eq_eof_of_le (by omega)]

theorem goesOn (h : front.Joins back distance whole) (hends : front.EndsOnce)
    (hfinal : front.final.span.isEmpty) (hstarts : StartsItem back.kind 0) :
    front.GoesOn whole where
  get_eq _ hindex := h.get_front hindex
  ends := hends
  final := hfinal
  starts := by
    unfold StartsItem
    rw [h.kind_back 1, ← Nat.add_zero front.body.size, h.kind_back 0]
    exact hstarts

end TokenStream.Joins

namespace Setting

variable {old new front back whole : TokenStream} {start : Nat} {item : Node × ItemExtent}
  {items tail : List (Node × ItemExtent)} {after : Cursor}

theorem parseItem_goesOn (hgoes : old.GoesOn new) (hkind : old.kind start ≠ .eof)
    (hread : (top old .canonical).parseItem ⟨start, start⟩ = .done item after)
    (hsolid : Throughout Solid [item.1]) :
    ∃ item' after', (top new .canonical).parseItem ⟨start, start⟩ = .done item' after' ∧
      item'.1 = item.1 ∧ item'.2.endToken = item.2.endToken := by
  obtain ⟨hrun, hextent⟩ := parseItem_eq_done_iff.mp hread
  -- calls may nest less deep in the shorter stream, so both are read with the greater depth
  obtain ⟨depth, hold, hnew⟩ :
      ∃ depth, Nonterminal.callDepth old ≤ depth ∧ Nonterminal.callDepth new ≤ depth :=
    ⟨_, Nat.le_max_left _ _, Nat.le_max_right _ _⟩
  have hkind' : new.kind start ≠ .eof := by rwa [hgoes.kind_of_kind_ne_eof hkind]
  rw [Cursor.resetFurthest, ← Rule.run_itemOrError_of_le .canonical hold hkind] at hrun
  have hpersists : Rule.itemOrError.Persists old.kind new.kind (fun _ => True) False start := by
    simp [Rule.itemOrError, hkind]
  have hfollows : (Rule.itemOrError.run (Nonterminal.run depth) (top old .canonical) []
      ⟨start, start⟩).Follows Solid _ _ (Rule.itemOrError.run (Nonterminal.run depth)
        (top new .canonical) [] ⟨start, start⟩) :=
    hpersists.outcome hgoes (Nonterminal.allPersist_run hgoes depth) rfl rfl rfl
      (TokenStream.lt_of_kind_ne_eof hkind).le
  rw [hrun] at hfollows
  obtain ⟨after', hdone, hposition, -⟩ := (hfollows hsolid).resolve_right fun h => h.2
  refine ⟨(item.1, ⟨start, after'.position, max after'.furthest after'.position⟩), after',
    parseItem_eq_done_iff.mpr ⟨?_, rfl⟩, rfl, ?_⟩
  · rw [Cursor.resetFurthest, ← Rule.run_itemOrError_of_le .canonical hnew hkind']
    exact hdone
  · rw [hextent]
    exact hposition

theorem Items.goesOn (hgoes : old.GoesOn new) (h : (top old .canonical).Items start items)
    (hstart : start ≤ old.body.size) (hsolid : Throughout Solid (items.map (·.1)))
    (htail : (top new .canonical).Items old.body.size tail) :
    ∃ items', items'.map (·.1) = items.map (·.1) ∧
      (top new .canonical).Items start (items' ++ tail) := by
  induction h with
  | finish eof =>
    obtain rfl := Nat.le_antisymm hstart (hgoes.ends.le_of_kind_eq_eof eof)
    exact ⟨[], rfl, htail⟩
  | @item start item after items kind read _ ih =>
    obtain ⟨found, _, hread, hitem, -⟩ := parseItem_eq_done .canonical ⟨start, start⟩ kind
    obtain ⟨rfl, -⟩ : item = found ∧ _ := by simpa using read.symm.trans hread
    rw [List.map_cons, ← List.singleton_append, Node.throughout_append] at hsolid
    obtain ⟨item', after', hread', hnode, hend⟩ := parseItem_goesOn hgoes kind read hsolid.1
    obtain ⟨items', hitems, hrest⟩ := ih (hitem.looked.trans hitem.bound) hsolid.2
    refine ⟨item' :: items', by simp [hnode, hitems], ?_⟩
    have hkind : new.kind start ≠ .eof := (hgoes.kind_of_kind_ne_eof kind).trans_ne kind
    exact .item hkind hread' (hend ▸ hrest)

theorem Items.joined {distance : Int} {dialect : Dialect} (hjoins : front.Joins back distance whole)
    (hends : whole.EndsOnce) (h : (top back dialect).Items start items)
    (hstart : start ≤ back.body.size) :
    ∃ items', items'.map (·.1) = Node.shiftedAll distance (items.map (·.1)) ∧
      (top whole dialect).Items (front.body.size + start) items' := by
  have hsize := hjoins.size_eq
  induction h with
  | finish eof => exact ⟨[], rfl, .finish ((hjoins.kind_back _).trans eof)⟩
  | @item start item after items kind read _ ih =>
    obtain ⟨found, _, hread, hitem, -⟩ := parseItem_eq_done dialect ⟨start, start⟩ kind
    obtain ⟨rfl, -⟩ : item = found ∧ _ := by simpa using read.symm.trans hread
    obtain ⟨items', hitems, hrest⟩ := ih (hitem.looked.trans hitem.bound)
    let window : Window back whole := .ofTokens distance start (front.body.size + start)
      back.body.size hstart (by omega) (fun _ => hends.le_of_kind_eq_eof) fun index hindex hle => by
        rw [show index - start + (front.body.size + start) = front.body.size + index by omega]
        exact hjoins.get_back hle
    have hmoved := window.parseItem_eq_done kind read hitem.bound
    have hend : window.index item.2.endToken = front.body.size + item.2.endToken := by
      have hlt : start < item.2.endToken := hitem.lt
      change item.2.endToken - start + (front.body.size + start) = _
      omega
    refine ⟨_ :: items', ?_, .item ((hjoins.kind_back _).trans_ne kind) hmoved ?_⟩
    · rw [List.map_cons, hitems]
      rfl
    · change (top whole dialect).Items (window.index item.2.endToken) items'
      rwa [hend]

end Setting

namespace TokenStream.IsOf

variable {stream front back whole : TokenStream} {source source' : String}

theorem endsOnce (h : stream.IsOf source) : stream.EndsOnce := by
  intro token hmem
  have hsource := h.toList_body ▸ Array.mem_toList_iff.mpr hmem
  exact bne_iff_ne.mp (List.mem_filter.mp hsource).2

theorem isEmpty_final (h : stream.IsOf source) : stream.final.span.isEmpty := by
  simp [h.final_eq, Token.endOfFile, Span.ofOffsets, Span.isEmpty]

theorem joins (hfront : front.IsOf source) (hback : back.IsOf source')
    (hwhole : whole.IsOf (source ++ "\n" ++ source'))
    (hclean : ∀ token ∈ front.toList, ∀ reason, token.kind ≠ .error reason)
    (hlength : byteLength source'.toList ≤ maxSourceLength) :
    front.Joins back (byteLength source.toList + 1 : Nat) whole := by
  have hproper : ∀ token ∈ tokenize source,
      (∀ reason, token.kind ≠ .error reason) ∧ (token.kind = .comment → '\n' = '\n') := by
    refine fun token hmem => ⟨fun reason hkind => ?_, fun _ => rfl⟩
    have hsignificant : token ∈ front.toList := by
      rw [show front.toList = tokenizeSignificant source from hfront]
      exact List.mem_filter.mpr ⟨hmem, by simp [hkind, TokenKind.isExtra]⟩
    exact hclean token hsignificant reason hkind
  have hbehind := lexes_tokens (0 + byteLength source.toList + 1) source'.toList
  obtain ⟨all, hall, htokens⟩ :=
    (lexes_tokenize source).exists_join (.inr rfl) hproper hbehind
  have hwhole' := lexes_tokenize (source ++ "\n" ++ source')
  have htext : (source ++ "\n" ++ source').toList = source.toList ++ '\n' :: source'.toList := by
    simp
  rw [htext] at hwhole'
  have hmoved := (lexes_tokenize source').eq_map_shifted hbehind (by omega)
    (show ((0 : Nat) : Int) + (byteLength source.toList + 1 : Nat) = _ by omega)
  rw [Joins, show whole.toList = tokenizeSignificant _ from hwhole, tokenizeSignificant,
    hwhole'.unique hall, htokens, hmoved, significantTokens_map_shifted, hfront.toList_body,
    show back.toList = tokenizeSignificant source' from hback]
  rfl

end TokenStream.IsOf

namespace SyntaxTree

theorem solid_of_hasErrors {source : String} {stream : TokenStream} {dialect : Dialect}
    {items : List (Node × ItemExtent)} (hlength : byteLength source.toList ≤ maxSourceLength)
    (hof : stream.IsOf source) (hitems : (Setting.top stream dialect).Items 0 items)
    (hclean : (ofItems source stream items dialect).hasErrors = false) :
    Throughout Solid (items.map (·.1)) := by
  obtain ⟨stop, -, -, hfragment, -⟩ := hitems.fragment (Nat.zero_le _)
  have hkinds := kind_ne_error_of_hasErrors hclean
  refine hfragment.covers.throughout (Nat.zero_le _) hkinds
    fun node start stop hstart hnode hsound => ?_
  have hkind := (hsound.of_mem List.mem_cons_self).1
  refine ⟨hkind, fun hleaf => hnode.isEmpty_eq_false (hof.ordered hlength) hstart ?_⟩
  cases hnode with
  | leaf _ _ _ rest => exact rest.le
  | hollow _ herror => exact absurd herror hkind
  | parent head => simp [hleaf] at head

/-- Below a source that is read without errors, a source that begins with an item is read as it is
read by itself. -/
theorem parse_joined {source source' : String} {tree tree' : SyntaxTree}
    (htree : parse source .canonical = .ok tree) (hclean : tree.hasErrors = false)
    (htree' : parse source' .canonical = .ok tree') (hstarts : StartsItem tree'.stream.kind 0)
    (hlength : byteLength source.toList + 1 + byteLength source'.toList ≤ maxSourceLength) :
    ∃ whole, parse (source ++ "\n" ++ source') .canonical = .ok whole ∧
      whole.root.children = tree.root.children ++
        Node.shiftedAll (byteLength source.toList + 1 : Nat) tree'.root.children := by
  obtain ⟨hfront, front, items, hof, hitems, rfl⟩ := eq_ofItems_of_parse htree
  obtain ⟨hback, back, items', hof', hitems', rfl⟩ := eq_ofItems_of_parse htree'
  have htotal : byteLength (source ++ "\n" ++ source').toList ≤ maxSourceLength := by
    have hbreak : byteLength "\n".toList = 1 := by decide
    rwa [String.toList_append, String.toList_append, Text.byteLength_append,
      Text.byteLength_append, hbreak]
  obtain ⟨whole, all, hwhole, hall, hparse⟩ := parse_eq_ok .canonical htotal
  have hproper : ∀ token ∈ front.toList, ∀ reason, token.kind ≠ .error reason := by
    intro token hmem reason hkind
    have hreports := reportsErrors_ofItems hfront hof hitems
    have hmember := hreports.lexical token hmem reason hkind
    have herrors := hreports.hasErrors.mpr (List.ne_nil_of_mem hmember)
    rw [hclean] at herrors
    contradiction
  have hjoins := hof.joins hof' hwhole hproper hback
  have hgoes := hjoins.goesOn hof.endsOnce hof.isEmpty_final hstarts
  obtain ⟨behind, hbehind, htail⟩ := hitems'.joined hjoins hwhole.endsOnce (Nat.zero_le _)
  obtain ⟨before, hbefore, hread⟩ := hitems.goesOn hgoes (Nat.zero_le _)
    (solid_of_hasErrors hfront hof hitems hclean) htail
  obtain rfl := hall.unique hread
  refine ⟨_, hparse, ?_⟩
  simp only [ofItems, rootOf, Node.ofChildren, List.map_append, hbefore, hbehind]

/-- A function that might have gone on with a type, and one that is cut short. -/
theorem parse_joined_function :
    ∃ tree tree', parse "pub fn f()" .canonical = .ok tree ∧ tree.hasErrors = false ∧
      parse "fn g(" .canonical = .ok tree' ∧ StartsItem tree'.stream.kind 0 ∧
      byteLength "pub fn f()".toList + 1 + byteLength "fn g(".toList ≤ maxSourceLength ∧
      ∃ whole, parse ("pub fn f()" ++ "\n" ++ "fn g(") .canonical = .ok whole ∧
        whole.root.children = tree.root.children ++
          Node.shiftedAll (byteLength "pub fn f()".toList + 1 : Nat) tree'.root.children := by
  obtain ⟨tree, htree, hclean⟩ :
      ∃ tree, parse "pub fn f()" .canonical = .ok tree ∧ tree.hasErrors = false :=
    exists_parse_eq_ok (by decide +kernel)
  obtain ⟨tree', htree', hstarts⟩ :
      ∃ tree', parse "fn g(" .canonical = .ok tree' ∧ StartsItem tree'.stream.kind 0 :=
    exists_parse_eq_ok (by decide +kernel)
  have hlength :
      byteLength "pub fn f()".toList + 1 + byteLength "fn g(".toList ≤ maxSourceLength := by decide
  exact ⟨tree, tree', htree, hclean, htree', hstarts, hlength,
    parse_joined htree hclean htree' hstarts hlength⟩

end SyntaxTree

end LosslessSyntax
