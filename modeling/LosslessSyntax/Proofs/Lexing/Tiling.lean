import LosslessSyntax.Proofs.Lexing.Tokens
import Mathlib.Data.List.Chain
/-!
The tokens of a source tile it: each is a piece of the text that is not empty, they follow each
other without a gap, and their values are the pieces, decoded where a literal stands in quotes.
-/
namespace LosslessSyntax

open Text (byteLength)

def TokenKind.delimiters? : TokenKind → Option (List Char × List Char)
  | .string => some (['"'], ['"'])
  | .char => some (['\''], ['\''])
  | .byteChar => some (['b', '\''], ['\''])
  | _ => none

/-- How the value of a token comes from its text: from between the quotes, if there are quotes. -/
def TokenKind.Decodes (kind : TokenKind) (text value : List Char) : Prop :=
  match kind.delimiters? with
  | some (opening, closing) =>
    ∃ body, text = opening ++ body ++ closing ∧ value = Text.unescape body
  | none => value = text

namespace Lexeme

def Unquoted (result : Option Lexeme) : Prop :=
  ∀ lexeme, result = some lexeme → ∃ kind text, lexeme = plain kind text ∧ kind.delimiters? = none

theorem unquoted_none : Unquoted none := by
  intro lexeme h
  contradiction

theorem unquoted_plain {kind : TokenKind} (text : List Char) (h : kind.delimiters? = none) :
    Unquoted (some (plain kind text)) := by
  intro lexeme hlexeme
  exact ⟨kind, text, (Option.some.inj hlexeme).symm, h⟩

theorem unquoted_map {α : Type} (found : Option α) {kind : α → TokenKind} {text : α → List Char}
    (h : ∀ a, (kind a).delimiters? = none) :
    Unquoted (found.map fun a => plain (kind a) (text a)) := by
  cases found with
  | none => exact unquoted_none
  | some a => exact unquoted_plain (text a) (h a)

theorem unquoted_bind {α : Type} (found : Option α) {next : α → Option Lexeme}
    (h : ∀ a, Unquoted (next a)) : Unquoted (found.bind next) := by
  cases found with
  | none => exact unquoted_none
  | some a => exact h a

theorem unquoted_or {result other : Option Lexeme} (h : Unquoted result) (hother : Unquoted other) :
    Unquoted (result.or other) := by
  cases result with
  | none => exact hother
  | some lexeme => exact h

theorem unquoted_comment (text : List Char) : Unquoted (comment text) := by
  unfold comment
  split
  · exact unquoted_plain _ rfl
  · exact unquoted_none

theorem unquoted_stringWithInvalidEscape (text : List Char) :
    Unquoted (stringWithInvalidEscape text) := by
  unfold stringWithInvalidEscape
  split
  · exact unquoted_map _ fun _ => rfl
  · exact unquoted_none

theorem unquoted_unterminatedString (text : List Char) : Unquoted (unterminatedString text) := by
  unfold unterminatedString
  split
  · exact unquoted_plain _ rfl
  · exact unquoted_none

theorem unquoted_charWithInvalidEscape (text : List Char) :
    Unquoted (charWithInvalidEscape text) := by
  unfold charWithInvalidEscape
  apply unquoted_bind
  intro opened
  dsimp only
  split
  · split
    · exact unquoted_none
    · exact unquoted_plain _ rfl
  · exact unquoted_none

theorem unquoted_directive (text : List Char) : Unquoted (directive text) := by
  unfold directive
  split
  · exact unquoted_map _ fun _ => rfl
  · exact unquoted_none

theorem unquoted_radixNumber (letter : Char) (digit : Char → Bool) (text : List Char) :
    Unquoted (radixNumber letter digit text) := by
  unfold radixNumber
  split
  · split
    · exact unquoted_map _ fun _ => rfl
    · exact unquoted_none
  · exact unquoted_none

theorem unquoted_decimalNumber (text : List Char) : Unquoted (decimalNumber text) :=
  unquoted_bind _ fun _ => unquoted_plain _ rfl

theorem unquoted_number (text : List Char) : Unquoted (number text) := by
  simp only [number, Option.orElse_eq_orElse, Option.orElse_eq_or]
  apply unquoted_or (unquoted_radixNumber _ _ text)
  apply unquoted_or (unquoted_radixNumber _ _ text)
  exact unquoted_or (unquoted_radixNumber _ _ text) (unquoted_decimalNumber text)

theorem delimiters?_eq_none {kind : TokenKind} (h : IsPlain kind) : kind.delimiters? = none := by
  obtain ⟨-, hstring, hchar, hbyteChar⟩ := h
  unfold TokenKind.delimiters?
  split <;> first | rfl | contradiction

theorem unquoted_lowerWord (text : List Char) : Unquoted (lowerWord text) := by
  apply unquoted_map
  intro name
  cases hkind : TokenKind.ofReserved? (String.ofList name) with
  | none => rfl
  | some kind => exact delimiters?_eq_none (isPlain_ofReserved? hkind)

theorem unquoted_operator {kind : TokenKind} (hkind : kind ∈ operators) (text : List Char) :
    Unquoted (operator kind text) := by
  unfold operator
  dsimp only
  split
  · exact unquoted_plain _ (delimiters?_eq_none (isPlain_operator kind hkind).1)
  · exact unquoted_none

def Decodes (lexeme : Lexeme) : Prop := lexeme.kind.Decodes lexeme.text lexeme.value

theorem decodes_of_unquoted {result : Option Lexeme} {lexeme : Lexeme} (h : Unquoted result)
    (hresult : result = some lexeme) : lexeme.Decodes := by
  obtain ⟨kind, text, rfl, hkind⟩ := h lexeme hresult
  unfold Decodes TokenKind.Decodes
  rw [show (plain kind text).kind.delimiters? = none from hkind]
  rfl

theorem decodes_string {text : List Char} {lexeme : Lexeme} (h : string text = some lexeme) :
    lexeme.Decodes := by
  unfold string at h
  split at h
  · obtain ⟨body, -, rfl⟩ := Option.map_eq_some_iff.mp h
    exact ⟨body, rfl, rfl⟩
  · contradiction

theorem decodes_char {text : List Char} {lexeme : Lexeme} (h : char text = some lexeme) :
    lexeme.Decodes := by
  simp only [char, Option.bind_eq_bind, Option.bind_eq_some_iff, Option.pure_def,
    Option.some.injEq] at h
  obtain ⟨⟨kind, opening, rest⟩, hopening, body, -, rfl⟩ := h
  cases (charOpening?_eq_some hopening).2 with
  | inl hbyte =>
    obtain ⟨rfl, rfl⟩ := hbyte
    exact ⟨body, rfl, rfl⟩
  | inr hchar =>
    obtain ⟨rfl, rfl⟩ := hchar
    exact ⟨body, rfl, rfl⟩

theorem decodes_of_mem_rules : ∀ rule ∈ rules, ∀ text lexeme, rule text = some lexeme →
    lexeme.Decodes := by
  intro rule hrule text lexeme h
  rcases List.mem_append.mp hrule with hrule | hrule
  · simp only [List.mem_cons, List.not_mem_nil, or_false] at hrule
    rcases hrule with rfl | rfl | rfl | rfl | rfl | rfl | rfl | rfl | rfl | rfl | rfl | rfl
    · exact decodes_of_unquoted (unquoted_map _ fun _ => rfl) h
    · exact decodes_of_unquoted (unquoted_comment text) h
    · exact decodes_string h
    · exact decodes_of_unquoted (unquoted_stringWithInvalidEscape text) h
    · exact decodes_of_unquoted (unquoted_unterminatedString text) h
    · exact decodes_char h
    · exact decodes_of_unquoted (unquoted_charWithInvalidEscape text) h
    · exact decodes_of_unquoted (unquoted_map _ fun _ => rfl) h
    · exact decodes_of_unquoted (unquoted_directive text) h
    · exact decodes_of_unquoted (unquoted_number text) h
    · exact decodes_of_unquoted (unquoted_lowerWord text) h
    · exact decodes_of_unquoted (unquoted_map _ fun _ => rfl) h
  · obtain ⟨kind, hkind, rfl⟩ := List.mem_map.mp hrule
    exact decodes_of_unquoted (unquoted_operator hkind text) h

theorem decodes_first (c : Char) (rest : List Char) : (first c rest).Decodes := by
  unfold first
  cases hfound : rules.findSome? (· (c :: rest)) with
  | none => rfl
  | some lexeme =>
    obtain ⟨rule, hrule, hlexeme⟩ := List.exists_of_findSome?_eq_some hfound
    exact decodes_of_mem_rules rule hrule _ _ hlexeme

end Lexeme

/-- An offset between two characters of a text, or at one of its ends. -/
def Text.IsBoundary (offset : Nat) (text : List Char) : Prop :=
  ∃ front back, text = front ++ back ∧ byteLength front = offset

/-- The token is a piece of a source. -/
structure Token.Stands (source : String) (token : Token) : Prop where
  kind_ne_eof : token.kind ≠ .eof
  lt : token.span.start.toNat < token.span.stop.toNat
  start : Text.IsBoundary token.span.start.toNat source.toList
  stop : Text.IsBoundary token.span.stop.toNat source.toList
  decodes : token.kind.Decodes (token.span.text source).toList token.value.toList

structure Token.Ends (source : String) (token : Token) : Prop where
  kind : token.kind = .eof
  value : token.value = "EOF"
  start : token.span.start.toNat = byteLength source.toList
  stop : token.span.stop.toNat = byteLength source.toList

/-- How the tokens of a source lie in it. -/
structure TilesSource (source : String) (tokens : List Token) : Prop where
  first : ∀ token ∈ tokens.head?, token.span.start.toNat = 0
  next : tokens.IsChain fun token next => next.span.start = token.span.stop
  pieces : ∃ body last, tokens = body ++ [last] ∧ (∀ token ∈ body, token.Stands source) ∧
    last.Ends source

namespace Lexeme

variable {lexeme : Lexeme} {front back : List Char} {source : String}

theorem stands_token (hbegins : lexeme.Begins (lexeme.text ++ back)) (hdecodes : lexeme.Decodes)
    (hsource : source.toList = front ++ lexeme.text ++ back)
    (hlength : byteLength source.toList ≤ maxSourceLength) :
    (lexeme.token (byteLength front)).Stands source := by
  have hend : byteLength front + byteLength lexeme.text ≤ maxSourceLength := by
    rw [hsource, Text.byteLength_append, Text.byteLength_append] at hlength
    omega
  have hstart := lexeme.start_token (Nat.le_of_add_right_le hend)
  have hstop := stop_token hend
  have htext : ((lexeme.token (byteLength front)).span.text source).toList = lexeme.text := by
    rw [Span.text, Span.select, hstart, hstop, hsource, Text.slice?_append, Option.getD_some,
      String.toList_ofList]
  constructor
  case kind_ne_eof => exact hbegins.kind_ne_eof
  case lt =>
    have hpos := Text.byteLength_pos hbegins.nonempty
    omega
  case start => exact ⟨front, lexeme.text ++ back, by rw [hsource, List.append_assoc], hstart.symm⟩
  case stop => exact ⟨front ++ lexeme.text, back, hsource, by rw [Text.byteLength_append, hstop]⟩
  case decodes =>
    rw [htext]
    unfold token
    rw [String.toList_ofList]
    exact hdecodes

end Lexeme

namespace Lexes

variable {offset : Nat} {text : List Char} {tokens : List Token}

theorem start_head (h : Lexes offset text tokens) (hoffset : offset ≤ maxSourceLength) :
    ∀ token ∈ tokens.head?, token.span.start.toNat = offset := by
  cases h with
  | finish =>
    simp only [List.head?_cons, Option.mem_def, Option.some.injEq, forall_eq']
    exact Token.start_endOfFile hoffset
  | @lexeme _ _ _ _ lexeme =>
    simp only [List.head?_cons, Option.mem_def, Option.some.injEq, forall_eq']
    exact lexeme.start_token hoffset

theorem isChain (h : Lexes offset text tokens)
    (hlength : offset + byteLength text ≤ maxSourceLength) :
    tokens.IsChain fun token next => next.span.start = token.span.stop := by
  induction h with
  | finish => exact .singleton _
  | @lexeme offset c rest back lexeme tokens _ text tail ih =>
    rw [text, Text.byteLength_append, ← Nat.add_assoc] at hlength
    have hend : offset + byteLength lexeme.text ≤ maxSourceLength :=
      Nat.le_of_add_right_le hlength
    apply List.IsChain.cons (ih hlength)
    intro next hnext
    apply UInt32.toNat_inj.mp
    rw [tail.start_head hend next hnext, Lexeme.stop_token hend]

end Lexes

theorem exists_pieces_of_lexes {source : String} (front : List Char) {back : List Char}
    {tokens : List Token} (h : Lexes (byteLength front) back tokens)
    (hsource : source.toList = front ++ back)
    (hlength : byteLength source.toList ≤ maxSourceLength) :
    ∃ body last, tokens = body ++ [last] ∧ (∀ token ∈ body, token.Stands source) ∧
      last.Ends source := by
  obtain ⟨body, htokens, hbody⟩ := h.eq_concat
  rw [← Text.byteLength_append, ← hsource] at htokens
  refine ⟨body, _, htokens, ?_, ?_⟩
  · intro token hmem
    have hread : token ∈ tokens := htokens ▸ List.mem_append_left _ hmem
    obtain ⟨before, c, rest, behind, rfl, htext, rfl⟩ :=
      h.exists_first_of_mem hread (hbody token hmem)
    rw [← Text.byteLength_append]
    exact Lexeme.stands_token (htext ▸ Lexeme.begins_first c rest) (Lexeme.decodes_first c rest)
      (by rw [hsource, List.append_assoc, List.append_assoc, ← htext]) hlength
  · constructor
    case kind => rfl
    case value => rfl
    case start => exact Token.start_endOfFile hlength
    case stop => exact Token.start_endOfFile hlength

theorem tilesSource_of_lexes {source : String} {tokens : List Token}
    (h : Lexes 0 source.toList tokens) (hlength : byteLength source.toList ≤ maxSourceLength) :
    TilesSource source tokens := by
  constructor
  case first => exact h.start_head (Nat.zero_le _)
  case next => exact h.isChain (by rwa [Nat.zero_add])
  case pieces => exact exists_pieces_of_lexes [] h rfl hlength

/-- Reading a source comes to an end by itself, as no more tokens come where more are asked for, and
the tokens tile the source. -/
theorem tilesSource_tokenize (source : String)
    (h : byteLength source.toList ≤ maxSourceLength) :
    (∀ fuel, source.toList.length < fuel →
      (Lexer.startingAt source 0).take fuel = tokenize source) ∧
    TilesSource source (tokenize source) := by
  constructor
  · intro fuel hfuel
    rw [Lexer.startingAt_zero]
    exact (lexes_take hfuel).unique (lexes_tokenize source)
  · exact tilesSource_of_lexes (lexes_tokenize source) h

/-- A character of three bytes in a literal, an escape in a string, and a mark of no kind. -/
theorem tilesSource_tokenize_literals :
    byteLength "b'€' \"a\\n\" § 1u8".toList ≤ maxSourceLength ∧
      (∀ fuel, "b'€' \"a\\n\" § 1u8".toList.length < fuel →
        (Lexer.startingAt "b'€' \"a\\n\" § 1u8" 0).take fuel = tokenize "b'€' \"a\\n\" § 1u8") ∧
      TilesSource "b'€' \"a\\n\" § 1u8" (tokenize "b'€' \"a\\n\" § 1u8") :=
  ⟨by decide, tilesSource_tokenize _ (by decide)⟩

end LosslessSyntax
