import LosslessSyntax.Proofs.Lexing.Relex
import LosslessSyntax.Proofs.Lexing.Tiling
import Mathlib.Order.Bounds.Defs
/-!
Lexing starts again at every end of a token: the tokens from there on are those of the whole source,
and they are those of the rest of the source at another place. At any other offset it starts at the
next character.
-/
namespace LosslessSyntax

open Text (byteLength)

/-- How tokens lie in the rest of a source from a place on. -/
structure TilesRest (source : String) (place : Nat) (tokens : List Token) : Prop where
  first : ∀ token ∈ tokens.head?, token.span.start.toNat = place
  next : tokens.IsChain fun token next => next.span.start = token.span.stop
  pieces : ∃ body last, tokens = body ++ [last] ∧ (∀ token ∈ body, token.Stands source) ∧
    last.Ends source

theorem tilesRest_of_lexes {source : String} {front back : List Char} {tokens : List Token}
    (h : Lexes (byteLength front) back tokens) (hsource : source.toList = front ++ back)
    (hlength : byteLength source.toList ≤ maxSourceLength) :
    TilesRest source (byteLength front) tokens := by
  have htotal : byteLength front + byteLength back ≤ maxSourceLength := by
    rwa [← Text.byteLength_append, ← hsource]
  constructor
  case first => exact h.start_head (Nat.le_of_add_right_le htotal)
  case next => exact h.isChain htotal
  case pieces => exact exists_pieces_of_lexes front h hsource hlength

namespace Text

theorem exists_skipBytes (offset : Nat) (text : List Char) :
    ∃ front, text = front ++ skipBytes offset text ∧
      IsLeast {place | IsBoundary place text ∧ min offset (byteLength text) ≤ place}
        (byteLength front) := by
  fun_induction skipBytes offset text with
  | case1 offset =>
    exact ⟨[], rfl, ⟨⟨[], [], rfl, rfl⟩, by simp⟩, fun place _ => Nat.zero_le place⟩
  | case2 c rest =>
    exact ⟨[], rfl, ⟨⟨[], c :: rest, rfl, rfl⟩, by simp⟩, fun place _ => Nat.zero_le place⟩
  | case3 offset c rest hoffset ih =>
    obtain ⟨front, htext, ⟨-, hreaches⟩, hleast⟩ := ih
    have hcons : c :: rest = c :: front ++ skipBytes (offset - c.utf8Size) rest := by
      rw [List.cons_append, ← htext]
    refine ⟨c :: front, hcons, ⟨⟨c :: front, _, hcons, rfl⟩, ?_⟩, ?_⟩
    · simp only [byteLength_cons]
      omega
    · rintro place ⟨⟨front', back', hsplit, rfl⟩, hplace⟩
      rcases front' with _ | ⟨d, front'⟩
      · have := c.utf8Size_pos
        simp only [byteLength_cons, byteLength_nil] at hplace
        omega
      · obtain ⟨rfl, hrest⟩ := List.cons.inj hsplit
        simp only [byteLength_cons] at hplace ⊢
        have hshorter := hleast ⟨⟨front', back', hrest, rfl⟩, by omega⟩
        omega

end Text

theorem Lexer.exists_startingAt (source : String) (offset : Nat) :
    ∃ front back, source.toList = front ++ back ∧
      startingAt source offset = ⟨byteLength front, back, false⟩ ∧
      IsLeast {place | Text.IsBoundary place source.toList ∧
        min offset (byteLength source.toList) ≤ place} (byteLength front) := by
  obtain ⟨front, htext, hleast⟩ := Text.exists_skipBytes offset source.toList
  refine ⟨front, _, htext, ?_, hleast⟩
  have hlength := congrArg byteLength htext
  rw [Text.byteLength_append] at hlength
  simp only [startingAt, Lexer.mk.injEq, and_true]
  omega

namespace Lexes

variable {offset : Nat} {text : List Char} {tokens : List Token}

theorem le_start (h : Lexes offset text tokens)
    (hlength : offset + byteLength text ≤ maxSourceLength) :
    ∀ token ∈ tokens, offset ≤ token.span.start.toNat := by
  induction h with
  | finish offset =>
    rw [List.forall_mem_singleton, Token.start_endOfFile (Nat.le_of_add_right_le hlength)]
  | @lexeme offset c rest back lexeme tokens _ text tail ih =>
    rw [text, Text.byteLength_append, ← Nat.add_assoc] at hlength
    rw [List.forall_mem_cons, lexeme.start_token (by omega)]
    exact ⟨Nat.le_refl offset, fun token hmem =>
      Nat.le_trans (Nat.le_add_right _ _) (ih hlength token hmem)⟩

theorem exists_split_at_stop (h : Lexes offset text tokens)
    (hlength : offset + byteLength text ≤ maxSourceLength) {token : Token} (hmem : token ∈ tokens) :
    ∃ front back before after, text = front ++ back ∧ tokens = before ++ after ∧
      token.span.stop.toNat = offset + byteLength front ∧
      Lexes (offset + byteLength front) back after ∧
      ∀ earlier ∈ before, earlier.span.start.toNat < offset + byteLength front := by
  induction h with
  | finish offset =>
    obtain rfl := List.mem_singleton.mp hmem
    exact ⟨[], [], [], _, rfl, rfl, Token.start_endOfFile hlength, .finish offset, by simp⟩
  | @lexeme offset c rest back lexeme tokens first text tail ih =>
    have htotal := hlength
    rw [text, Text.byteLength_append, ← Nat.add_assoc] at htotal
    have hstart := lexeme.start_token (Nat.le_of_add_right_le (Nat.le_of_add_right_le htotal))
    have hpos := Text.byteLength_pos (first ▸ Lexeme.begins_first c rest).nonempty
    rcases List.mem_cons.mp hmem with rfl | hmem
    · refine ⟨lexeme.text, back, [lexeme.token offset], tokens, text, rfl,
        Lexeme.stop_token (Nat.le_of_add_right_le htotal), tail, ?_⟩
      rw [List.forall_mem_singleton, hstart]
      omega
    · obtain ⟨front, behind, before, after, rfl, rfl, hstop, hafter, hbefore⟩ := ih htotal hmem
      refine ⟨lexeme.text ++ front, behind, lexeme.token offset :: before, after, ?_, rfl, ?_⟩
      · rw [text, List.append_assoc]
      · rw [Text.byteLength_append, ← Nat.add_assoc, List.forall_mem_cons, hstart]
        exact ⟨hstop, hafter, by omega, hbefore⟩

end Lexes

/-- A place where the lexer starts again: the start of a source or the end of one of its tokens. -/
def IsTokenBoundary (place : Nat) (source : String) : Prop :=
  place = 0 ∨ ∃ token ∈ tokenize source, token.span.stop.toNat = place

theorem IsTokenBoundary.exists_split {source : String} {place : Nat}
    (h : IsTokenBoundary place source) (hlength : byteLength source.toList ≤ maxSourceLength) :
    ∃ front back before after, source.toList = front ++ back ∧ byteLength front = place ∧
      tokenize source = before ++ after ∧ Lexes place back after ∧
      ∀ earlier ∈ before, earlier.span.start.toNat < place := by
  have hlexes := lexes_tokenize source
  rcases h with rfl | ⟨token, hmem, rfl⟩
  · exact ⟨[], source.toList, [], _, rfl, rfl, rfl, hlexes, by simp⟩
  · obtain ⟨front, back, before, after, hsource, htokens, hstop, hafter, hbefore⟩ :=
      hlexes.exists_split_at_stop (by rwa [Nat.zero_add]) hmem
    rw [Nat.zero_add] at hstop hafter hbefore
    rw [hstop]
    exact ⟨front, back, before, after, hsource, rfl, htokens, hafter, hbefore⟩

/-- Lexing a source from any offset on comes to an end. From a token boundary on it gives the
tokens of the source that start there or later, and they are those of the rest of the source, moved.
From any other offset on it begins with the next character, and the tokens tile what is left. -/
theorem Lexer.tokens_startingAt (source : String)
    (h : byteLength source.toList ≤ maxSourceLength) :
    (∀ offset fuel, source.toList.length < fuel →
      (startingAt source offset).take fuel = (startingAt source offset).tokens) ∧
    (∀ place, IsTokenBoundary place source →
      (startingAt source place).tokens =
          (tokenize source).filter (fun token => place ≤ token.span.start.toNat) ∧
        ∃ rest, Text.dropBytes? place source.toList = some rest ∧
          (startingAt source place).tokens =
            (tokenize (String.ofList rest)).map (·.shifted place)) ∧
    ∀ offset,
      IsLeast {place | Text.IsBoundary place source.toList ∧
        min offset (byteLength source.toList) ≤ place} (startingAt source offset).offset ∧
      TilesRest source (startingAt source offset).offset (startingAt source offset).tokens := by
  refine ⟨fun offset fuel hfuel => ?_, fun place hplace => ?_, fun offset => ?_⟩
  · obtain ⟨front, back, hsource, hstart, -⟩ := exists_startingAt source offset
    rw [hsource, List.length_append] at hfuel
    rw [hstart]
    exact (lexes_take (by omega)).unique (lexes_tokens _ _)
  · obtain ⟨front, back, before, after, hsource, rfl, htokens, hafter, hbefore⟩ :=
      hplace.exists_split h
    have hread : (startingAt source (byteLength front)).tokens = after := by
      rw [startingAt_append hsource]
      exact (lexes_tokens _ _).unique hafter
    rw [hsource, Text.byteLength_append] at h
    rw [hread]
    constructor
    · rw [htokens, List.filter_append, List.filter_eq_nil_iff.mpr, List.filter_eq_self.mpr,
        List.nil_append]
      · simpa using hafter.le_start h
      · simpa using hbefore
    · refine ⟨back, Text.dropBytes?_eq_some_iff.mpr ⟨front, hsource, rfl⟩, ?_⟩
      have hrest := lexes_tokenize (String.ofList back)
      rw [String.toList_ofList] at hrest
      exact hrest.eq_map_shifted hafter (by omega) (by simp)
  · obtain ⟨front, back, hsource, hstart, hleast⟩ := exists_startingAt source offset
    rw [hstart]
    exact ⟨hleast, tilesRest_of_lexes (lexes_tokens _ _) hsource h⟩

/-- Behind a string that does not close there is a token boundary, and none within the last
character. -/
theorem Lexer.tokens_startingAt_open :
    byteLength "a \"x\nb é".toList ≤ maxSourceLength ∧ IsTokenBoundary 4 "a \"x\nb é" ∧
    (startingAt "a \"x\nb é" 4).tokens =
      (tokenize "a \"x\nb é").filter (fun token => 4 ≤ token.span.start.toNat) ∧
    IsLeast {place | Text.IsBoundary place "a \"x\nb é".toList ∧
      min 8 (byteLength "a \"x\nb é".toList) ≤ place} (startingAt "a \"x\nb é" 8).offset := by
  have hlength : byteLength "a \"x\nb é".toList ≤ maxSourceLength := by decide
  have hplace : IsTokenBoundary 4 "a \"x\nb é" := by
    unfold IsTokenBoundary
    decide
  obtain ⟨-, hrestart, hany⟩ := tokens_startingAt "a \"x\nb é" hlength
  exact ⟨hlength, hplace, (hrestart 4 hplace).1, (hany 8).1⟩

end LosslessSyntax
