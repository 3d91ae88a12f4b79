import LosslessSyntax.Proofs.Lexing.Lexemes
import LosslessSyntax.Token.Lexer
import Mathlib.Data.List.Basic
import Mathlib.Order.Basic
/-!
The tokens of a text as a relation: one lexeme after the other up to the end of file. The lexer
computes it, and what is said of tokens is proved by induction on it.
-/
namespace LosslessSyntax

open Text (byteLength)

def Lexeme.token (lexeme : Lexeme) (offset : Nat) : Token :=
  ⟨lexeme.kind, String.ofList lexeme.value, .ofOffsets offset (offset + byteLength lexeme.text)⟩

/-- The tokens of a text that begins at an offset. -/
inductive Lexes : Nat → List Char → List Token → Prop where
  | finish (offset : Nat) : Lexes offset [] [.endOfFile offset]
  | lexeme {offset : Nat} {c : Char} {rest back : List Char} {lexeme : Lexeme}
      {tokens : List Token} (first : Lexeme.first c rest = lexeme)
      (text : c :: rest = lexeme.text ++ back)
      (tail : Lexes (offset + byteLength lexeme.text) back tokens) :
      Lexes offset (c :: rest) (lexeme.token offset :: tokens)

theorem lexes_take {offset fuel : Nat} {text : List Char} (hfuel : text.length < fuel) :
    Lexes offset text (Lexer.take ⟨offset, text, false⟩ fuel) := by
  induction fuel generalizing offset text with
  | zero => omega
  | succ fuel ih =>
    cases text with
    | nil =>
      have hend : Lexer.take ⟨offset, [], true⟩ fuel = [] := by
        cases fuel <;> simp [Lexer.take, Lexer.next?]
      simpa [Lexer.take, Lexer.next?, hend] using Lexes.finish offset
    | cons c rest =>
      obtain ⟨back, hback⟩ := (Lexeme.begins_first c rest).front
      have hdrop : (c :: rest).drop (Lexeme.first c rest).text.length = back := by
        rw [← hback, List.drop_left]
      have hlength : 0 < (Lexeme.first c rest).text.length :=
        List.length_pos_iff.mpr (Lexeme.begins_first c rest).nonempty
      have htotal := congrArg List.length hback
      rw [List.length_append] at htotal
      simp only [Lexer.take, Lexer.next?, Bool.false_eq_true, if_false, hdrop]
      exact .lexeme rfl hback.symm (ih (by omega))

theorem lexes_tokens (offset : Nat) (text : List Char) :
    Lexes offset text (Lexer.mk offset text false).tokens :=
  lexes_take (Nat.lt_succ_self _)

namespace Lexes

variable {offset : Nat} {text : List Char} {tokens : List Token}

theorem unique {tokens' : List Token} (h : Lexes offset text tokens)
    (h' : Lexes offset text tokens') : tokens = tokens' := by
  induction h generalizing tokens' with
  | finish => cases h'; rfl
  | lexeme first text _ ih =>
    cases h' with
    | lexeme first' text' tail' =>
      subst first first'
      obtain rfl := List.append_cancel_left (text.symm.trans text')
      rw [ih tail']

theorem exists_first_of_mem (h : Lexes offset text tokens) {token : Token} (hmem : token ∈ tokens)
    (hkind : token.kind ≠ .eof) :
    ∃ (front : List Char) (c : Char) (rest back : List Char), text = front ++ c :: rest ∧
      c :: rest = (Lexeme.first c rest).text ++ back ∧
      token = (Lexeme.first c rest).token (offset + byteLength front) := by
  induction h with
  | finish =>
    obtain rfl := List.mem_singleton.mp hmem
    contradiction
  | @lexeme offset c rest back lexeme tokens first text _ ih =>
    subst first
    rcases List.mem_cons.mp hmem with rfl | hmem
    · exact ⟨[], c, rest, back, rfl, text, rfl⟩
    · obtain ⟨front, d, behind, back', rfl, htext, rfl⟩ := ih hmem
      refine ⟨(Lexeme.first c rest).text ++ front, d, behind, back', by simp [← text], htext, ?_⟩
      rw [Text.byteLength_append, Nat.add_assoc]

theorem eq_token_of_mem (h : Lexes offset text tokens) {token : Token} (hmem : token ∈ tokens)
    (hkind : token.kind ≠ .eof) :
    ∃ (front : List Char) (lexeme : Lexeme) (back : List Char), text = front ++ lexeme.text ++ back ∧
      token = lexeme.token (offset + byteLength front) ∧ lexeme.Begins (lexeme.text ++ back) := by
  obtain ⟨front, c, rest, back, rfl, htext, rfl⟩ := h.exists_first_of_mem hmem hkind
  refine ⟨front, _, back, ?_, rfl, htext ▸ Lexeme.begins_first c rest⟩
  rw [List.append_assoc, ← htext]

theorem eq_concat (h : Lexes offset text tokens) :
    ∃ body, tokens = body ++ [.endOfFile (offset + byteLength text)] ∧
      ∀ token ∈ body, token.kind ≠ .eof := by
  induction h with
  | finish => exact ⟨[], rfl, by simp⟩
  | @lexeme offset c rest back lexeme tokens first text _ ih =>
    obtain ⟨body, rfl, hbody⟩ := ih
    refine ⟨lexeme.token offset :: body, ?_, ?_⟩
    · rw [text, Text.byteLength_append, Nat.add_assoc]
      rfl
    · rintro token (_ | ⟨_, hmem⟩)
      · exact (first ▸ Lexeme.begins_first c rest).kind_ne_eof
      · exact hbody token hmem

end Lexes

namespace Lexeme

theorem start_token (lexeme : Lexeme) {offset : Nat} (h : offset ≤ maxSourceLength) :
    (lexeme.token offset).span.start.toNat = offset := by
  unfold maxSourceLength at h
  simp only [token, Span.ofOffsets, UInt32.toNat_ofNat']
  omega

theorem stop_token {lexeme : Lexeme} {offset : Nat}
    (h : offset + byteLength lexeme.text ≤ maxSourceLength) :
    (lexeme.token offset).span.stop.toNat = offset + byteLength lexeme.text := by
  unfold maxSourceLength at h
  simp only [token, Span.ofOffsets, UInt32.toNat_ofNat']
  omega

end Lexeme

theorem Token.start_endOfFile {offset : Nat} (h : offset ≤ maxSourceLength) :
    (Token.endOfFile offset).span.start.toNat = offset := by
  unfold maxSourceLength at h
  simp only [Token.endOfFile, Span.ofOffsets, UInt32.toNat_ofNat']
  omega

theorem Text.skipBytes_append (front back : List Char) :
    skipBytes (byteLength front) (front ++ back) = back := by
  induction front with
  | nil => cases back <;> simp [skipBytes]
  | cons c front ih =>
    have := c.utf8Size_pos
    have hne : byteLength (c :: front) ≠ 0 := by
      rw [byteLength_cons]
      omega
    rw [List.cons_append, skipBytes, if_neg hne, byteLength_cons, Nat.add_sub_cancel_left, ih]

theorem Lexer.startingAt_append {source : String} {front back : List Char}
    (h : source.toList = front ++ back) :
    startingAt source (byteLength front) = ⟨byteLength front, back, false⟩ := by
  simp only [startingAt, h, Text.skipBytes_append, Text.byteLength_append, Nat.add_sub_cancel]

theorem Lexer.startingAt_zero (source : String) :
    startingAt source 0 = ⟨0, source.toList, false⟩ :=
  startingAt_append (List.nil_append source.toList).symm

theorem lexes_tokenize (source : String) : Lexes 0 source.toList (tokenize source) := by
  rw [tokenize, Lexer.startingAt_zero]
  exact lexes_tokens 0 source.toList

theorem tokenizeSignificant_eq_concat (source : String) :
    ∃ body, tokenizeSignificant source = body ++ [.endOfFile (byteLength source.toList)] ∧
      ∀ token ∈ body, token.kind ≠ .eof ∧ token.kind.isExtra = false ∧
        (byteLength source.toList ≤ maxSourceLength → token.span.isEmpty = false) := by
  have hlexes := lexes_tokenize source
  obtain ⟨all, htokens, hall⟩ := hlexes.eq_concat
  refine ⟨significantTokens all, ?_, ?_⟩
  · simp [tokenizeSignificant, htokens, significantTokens, Token.endOfFile, TokenKind.isExtra]
  · intro token hmem
    obtain ⟨hmem, hextra⟩ := List.mem_filter.mp hmem
    have hkind := hall token hmem
    have hread : token ∈ tokenize source := htokens ▸ List.mem_append_left _ hmem
    refine ⟨hkind, by simpa using hextra, fun hlength => ?_⟩
    obtain ⟨front, lexeme, back, htext, rfl, hbegins⟩ := hlexes.eq_token_of_mem hread hkind
    have hpos := Text.byteLength_pos hbegins.nonempty
    rw [htext, Text.byteLength_append, Text.byteLength_append] at hlength
    have hend : 0 + byteLength front + byteLength lexeme.text ≤ maxSourceLength := by omega
    have hstart := lexeme.start_token (Nat.le_of_add_right_le hend)
    have hstop := Lexeme.stop_token hend
    rw [Span.isEmpty, beq_eq_false_iff_ne]
    intro heq
    rw [heq] at hstart
    omega

end LosslessSyntax
