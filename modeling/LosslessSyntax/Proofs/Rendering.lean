import LosslessSyntax.Proofs.Lexing.Seams
import LosslessSyntax.Proofs.Lossless
import LosslessSyntax.Proofs.Outline
/-!
Rendering: the texts of the leaves with single blanks between them have the same tokens as the
source, if none of these is malformed. So what is rendered is read in the same way again. Malformed
or not, the texts of all tokens are rendered, and nothing else is where there is a token.
-/
namespace LosslessSyntax

open Text (byteLength)

theorem map_eq_map_of_forall₂ {R : α → β → Prop} {f : α → γ} {g : β → γ} {as : List α}
    {bs : List β} (h : List.Forall₂ R as bs) (hfg : ∀ a b, R a b → f a = g b) :
    as.map f = bs.map g := by
  induction h with
  | nil => rfl
  | cons hab _ ih => simp [hfg _ _ hab, ih]

namespace Lexeme

variable {lexeme : Lexeme} {lexemes : List Lexeme} {token : Token} {source source' : String}

theorem IsAt.text_eq (h : lexeme.IsAt 0 source.toList token)
    (hlength : byteLength source.toList ≤ maxSourceLength) :
    token.span.text source = String.ofList lexeme.text := by
  obtain ⟨front, back, htext, rfl⟩ := h
  have hend : 0 + byteLength front + byteLength lexeme.text ≤ maxSourceLength := by
    rw [htext, Text.byteLength_append, Text.byteLength_append] at hlength
    omega
  rw [Span.text, Span.select, start_token lexeme (Nat.le_of_add_right_le hend), stop_token hend,
    htext, Nat.zero_add, Text.slice?_append, Option.getD_some]

/-- The lexemes stand in a source in their order, and there is nothing else in it that counts. -/
def Spell (lexemes : List Lexeme) (source : String) : Prop :=
  List.Forall₂ (IsAt 0 source.toList) lexemes
    ((tokenizeSignificant source).filter (·.kind != .eof))

theorem Spell.map_eq (h : Spell lexemes source) :
    (tokenizeSignificant source).map (fun token => (token.kind, token.value)) =
      lexemes.map (fun lexeme => (lexeme.kind, String.ofList lexeme.value)) ++
        [(.eof, "EOF")] := by
  obtain ⟨body, htokens, hbody⟩ := tokenizeSignificant_eq_concat source
  have hproper : (tokenizeSignificant source).filter (·.kind != .eof) = body := by
    rw [htokens, List.filter_append,
      List.filter_eq_self.mpr fun token hmem => by simpa using (hbody token hmem).1]
    simp [Token.endOfFile]
  rw [Spell, hproper] at h
  have hmap : lexemes.map (fun lexeme => (lexeme.kind, String.ofList lexeme.value)) =
      body.map fun token => (token.kind, token.value) := by
    refine map_eq_map_of_forall₂ h fun lexeme token hat => ?_
    obtain ⟨_, _, _, htoken⟩ := hat
    rw [htoken]
    rfl
  rw [htokens, List.map_append, hmap]
  rfl

def spaced (lexemes : List Lexeme) : String :=
  String.ofList ([' '].intercalate (lexemes.map (·.text)))

theorem spell_spaced (h : ∀ lexeme ∈ lexemes, lexeme.StandsAlone) :
    Spell lexemes (spaced lexemes) := by
  obtain ⟨tokens, htokens, hat⟩ := Lexes.exists_spaced 0 h
  rw [← String.toList_ofList (l := [' '].intercalate _)] at htokens hat
  obtain rfl := htokens.unique (lexes_tokenize (spaced lexemes))
  exact hat

theorem Spell.intercalate_eq (h : Spell lexemes source)
    (hlength : byteLength source.toList ≤ maxSourceLength) :
    " ".intercalate (((tokenizeSignificant source).filter (·.kind != .eof)).map
      (·.span.text source)) = spaced lexemes := by
  have hmap : lexemes.map (fun lexeme => String.ofList lexeme.text) =
      ((tokenizeSignificant source).filter (·.kind != .eof)).map (·.span.text source) :=
    map_eq_map_of_forall₂ h fun _ _ hat => (hat.text_eq hlength).symm
  rw [← hmap, ← String.toList_inj, String.toList_intercalate, spaced, String.toList_ofList]
  simp [Function.comp_def]

end Lexeme

namespace SyntaxTree

variable {source : String} {stream : TokenStream} {dialect : Dialect}
  {items : List (Node × ItemExtent)} {lexemes : List Lexeme}

/-- A source without proper tokens is rendered as it is, since the root is the only leaf. -/
theorem render_ofItems_nil (hlength : byteLength source.toList ≤ maxSourceLength)
    (hof : stream.IsOf source) :
    (ofItems source stream [] dialect).render = source := by
  have hstop : stream.final.span.stop.toNat = byteLength source.toList := by
    rw [hof.final_eq]
    exact Token.start_endOfFile hlength
  have hleaves : (ofItems source stream [] dialect).root.leaves =
      [(ofItems source stream [] dialect).root] := by
    simp [ofItems, rootOf, Node.ofChildren, Node.leaves, Node.preorder, Node.preorderAll,
      Node.isLeaf]
  have hspan : (ofItems source stream [] dialect).root.span = ⟨0, stream.final.span.stop⟩ := rfl
  have hsource : (ofItems source stream [] dialect).source = source := rfl
  have hselect : (Span.mk 0 stream.final.span.stop).select source.toList = source.toList := by
    have hslice := Text.slice?_append [] source.toList []
    simp only [List.nil_append, List.append_nil, byteLength, Nat.zero_add] at hslice
    simp [Span.select, hstop, hslice]
  by_cases hempty : (Span.mk 0 stream.final.span.stop).isEmpty
  · have hnone : source = "" := by
      have hzero : stream.final.span.stop = 0 := (eq_of_beq hempty).symm
      rw [← String.toList_eq_nil_iff]
      by_contra hne
      have hpos := Text.byteLength_pos hne
      rw [← hstop, hzero] at hpos
      contradiction
    have hrender : (ofItems source stream [] dialect).render = "" := by
      simp [render, hleaves, hspan, hempty]
    rw [hrender, hnone]
  · simp [render, hleaves, hspan, hsource, hselect, hempty]

theorem render_ofItems_of_ne_nil (hlength : byteLength source.toList ≤ maxSourceLength)
    (hof : stream.IsOf source) (hitems : (Setting.top stream dialect).Items 0 items)
    (hne : items ≠ []) :
    (ofItems source stream items dialect).render =
      " ".intercalate (((tokenizeSignificant source).filter (·.kind != .eof)).map
        (·.span.text source)) := by
  obtain ⟨stop, hstop, hle, hfragment, -⟩ := hitems.fragment (Nat.zero_le _)
  obtain rfl : stop = stream.body.size := Nat.le_antisymm hle (hof.kind_eq_eof_iff.mp hstop)
  have hspell : Node.Spell (items.map (·.1))
      ((tokenizeSignificant source).filter (·.kind != .eof)) := by
    rw [← hof.slice_eq]
    exact hfragment.spell fun index hindex => (hof.get_of_lt hindex).2.2 hlength
  have hleaves : (ofItems source stream items dialect).root.leaves.filter (!·.span.isEmpty) =
      Node.visibleLeaves (items.map (·.1)) := by
    have hchildren : (ofItems source stream items dialect).root.children = items.map (·.1) := rfl
    have hroot := Node.visibleLeaves_singleton_of_children (hchildren.trans_ne (by simpa using hne))
    rw [← hchildren, ← hroot, Node.leaves, List.filter_filter]
    simp [Node.visibleLeaves, Node.preorderAll, Bool.and_comm]
  have hsource : (ofItems source stream items dialect).source = source := rfl
  simp only [render, hleaves, hsource]
  congr 1
  exact map_eq_map_of_forall₂ hspell fun leaf token hleaf => by rw [hleaf.1]; rfl

theorem render_eq_spaced (hlength : byteLength source.toList ≤ maxSourceLength)
    (hof : stream.IsOf source) (hitems : (Setting.top stream dialect).Items 0 items)
    (hne : items ≠ []) (hspell : Lexeme.Spell lexemes source) :
    (ofItems source stream items dialect).render = Lexeme.spaced lexemes :=
  (render_ofItems_of_ne_nil hlength hof hitems hne).trans (hspell.intercalate_eq hlength)

/-- Rendering goes round for sources in which no token is malformed: what is rendered has the same
tokens, and if it is not too long, it is read in the same way and rendered as it is. -/
theorem parse_render {tree : SyntaxTree} (h : parse source dialect = .ok tree)
    (hclean : ∀ token ∈ tokenizeSignificant source, ∀ reason, token.kind ≠ .error reason) :
    (tokenizeSignificant tree.render).map (fun token => (token.kind, token.value)) =
        (tokenizeSignificant source).map (fun token => (token.kind, token.value)) ∧
      (byteLength tree.render.toList ≤ maxSourceLength →
        ∃ tree', parse tree.render dialect = .ok tree' ∧ tree'.sexp = tree.sexp ∧
          tree'.render = tree.render) := by
  obtain ⟨hlength, stream, items, hof, hitems, rfl⟩ := eq_ofItems_of_parse h
  by_cases hne : items = []
  · subst hne
    have hsame : (ofItems source stream [] dialect).render = source :=
      render_ofItems_nil hlength hof
    rw [hsame]
    exact ⟨rfl, fun _ => ⟨_, h, rfl, hsame⟩⟩
  obtain ⟨lexemes, halone, hspell⟩ := (lexes_tokenize source).exists_lexemes hclean
  have hspell' := Lexeme.spell_spaced halone
  have hpairs := hspell'.map_eq.trans (Lexeme.Spell.map_eq hspell).symm
  rw [render_eq_spaced hlength hof hitems hne hspell]
  refine ⟨hpairs, fun hlength' => ?_⟩
  obtain ⟨stream', items', hof', hitems', hparse'⟩ := parse_eq_ok dialect hlength'
  have hsame : stream'.SameKinds stream := by
    refine .of_map_kind ?_
    rw [hof, hof']
    simpa [Function.comp_def] using congrArg (List.map (·.1)) hpairs
  obtain ⟨hroot, hextents⟩ :
      (ofItems (Lexeme.spaced lexemes) stream' items' dialect).root.outline =
          (ofItems source stream items dialect).root.outline ∧
        (ofItems (Lexeme.spaced lexemes) stream' items' dialect).items =
          (ofItems source stream items dialect).items :=
    outline_ofItems hsame hitems' hitems
  have hne' : items' ≠ [] := by
    rintro rfl
    exact hne (List.map_eq_nil_iff.mp hextents.symm)
  refine ⟨_, hparse', ?_, render_eq_spaced hlength' hof' hitems' hne' hspell'⟩
  rw [sexp, sexp, ← Node.sexp_outline, hroot, Node.sexp_outline]

/-- A source with a comment, a string of two lines, a number of another base and one with a
suffix. -/
theorem parse_render_comment :
    ∃ tree, parse "const a=0xff// b\n\nconst s=\"x\ny\"+1i8 .. c" .canonical = .ok tree ∧
      (∀ token ∈ tokenizeSignificant "const a=0xff// b\n\nconst s=\"x\ny\"+1i8 .. c",
        ∀ reason, token.kind ≠ .error reason) ∧
      (tokenizeSignificant tree.render).map (fun token => (token.kind, token.value)) =
        (tokenizeSignificant "const a=0xff// b\n\nconst s=\"x\ny\"+1i8 .. c").map
          (fun token => (token.kind, token.value)) ∧
      ∃ tree', parse tree.render .canonical = .ok tree' ∧ tree'.sexp = tree.sexp ∧
        tree'.render = tree.render := by
  obtain ⟨tree, htree, hfits⟩ :
      ∃ tree, parse "const a=0xff// b\n\nconst s=\"x\ny\"+1i8 .. c" .canonical = .ok tree ∧
        byteLength tree.render.toList ≤ maxSourceLength :=
    exists_parse_eq_ok (by decide +kernel)
  have hclean : ∀ token ∈ tokenizeSignificant "const a=0xff// b\n\nconst s=\"x\ny\"+1i8 .. c",
      ∀ reason, token.kind ≠ .error reason := by
    intro token hmem reason
    revert token
    cases reason <;> decide +kernel
  obtain ⟨htokens, hagain⟩ := parse_render htree hclean
  exact ⟨_, htree, hclean, htokens, hagain hfits⟩

def significantText (source : String) : String :=
  " ".intercalate (((tokenizeSignificant source).filter (·.kind != .eof)).map
    (·.span.text source))

theorem items_eq_nil_iff (hof : stream.IsOf source)
    (hitems : (Setting.top stream dialect).Items 0 items) :
    items = [] ↔ ∀ token ∈ tokenizeSignificant source, token.kind = .eof :=
  calc items = []
    _ ↔ stream.kind 0 = .eof := by
      cases hitems with
      | finish eof => exact iff_of_true rfl eof
      | item kind => exact iff_of_false (List.cons_ne_nil _ _) kind
    _ ↔ stream.body.toList = [] := by
      rw [hof.kind_eq_eof_iff, Nat.le_zero, Array.toList_eq_nil_iff, Array.size_eq_zero_iff]
    _ ↔ ∀ token ∈ tokenizeSignificant source, token.kind = .eof := by
      rw [hof.toList_body, List.filter_eq_nil_iff]
      simp

/-- The tree of a source that is not too long is rendered as the texts of its tokens with single
blanks between them, malformed tokens and error nodes included. Only where there is no token but the
end of file the root is a leaf itself, and then white space and comments are rendered as they are. -/
theorem render_parse (source : String) (dialect : Dialect)
    (h : byteLength source.toList ≤ maxSourceLength) :
    ∃ tree, parse source dialect = .ok tree ∧
      tree.render =
        if ∀ token ∈ tokenizeSignificant source, token.kind = .eof then source
        else significantText source := by
  obtain ⟨stream, items, hof, hitems, hparse⟩ := parse_eq_ok dialect h
  refine ⟨_, hparse, ?_⟩
  have hnone := items_eq_nil_iff hof hitems
  split
  · rename_i hblank
    obtain rfl := hnone.mpr hblank
    exact render_ofItems_nil h hof
  · rename_i hblank
    exact render_ofItems_of_ne_nil h hof hitems fun hnil => hblank (hnone.mp hnil)

/-- A string that is not closed, behind a parenthesis and a comment. -/
theorem render_parse_unclosed :
    byteLength "fn f( // a\n \"b".toList ≤ maxSourceLength ∧
      ∃ tree, parse "fn f( // a\n \"b" .canonical = .ok tree ∧
        tree.render = "fn f ( \"b" := by
  obtain ⟨tree, htree, hrender⟩ := render_parse "fn f( // a\n \"b" .canonical (by decide)
  exact ⟨by decide, tree, htree, hrender.trans (by decide +kernel)⟩

/-- A comment by itself is no token, and is rendered all the same. -/
theorem render_parse_comment :
    ∃ tree, parse "// a" .canonical = .ok tree ∧ significantText "// a" = "" ∧
      tree.render ≠ significantText "// a" :=
  exists_parse_eq_ok (by decide +kernel)

end SyntaxTree

end LosslessSyntax
