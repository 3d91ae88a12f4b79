import LosslessSyntax.Proofs.Lexing.Strings
import Mathlib.Data.List.Forall2
/-!
Literals stand for what is written in them. A value that is written with any mixture of raw
characters and escapes is read back, and what is read as a literal leaves decoding no backslash to
keep.
-/
namespace LosslessSyntax

open Text (byteLength units unescape escaped?)

def Token.ReadFrom (token : Token) (source : String) (text : List Char) : Prop :=
  ∃ front back, source.toList = front ++ text ++ back ∧
    (Lexer.startingAt source (byteLength front)).tokens.head? = some token ∧
    token.span = .ofOffsets (byteLength front) (byteLength front + byteLength text)

theorem exists_readFrom {source : String} {token : Token} (hmem : token ∈ tokenize source)
    (hkind : token.kind ≠ .eof) :
    ∃ c rest offset, token = (Lexeme.first c rest).token offset ∧
      token.ReadFrom source (Lexeme.first c rest).text := by
  obtain ⟨front, c, rest, back, hsource, htext, rfl⟩ :=
    (lexes_tokenize source).exists_first_of_mem hmem hkind
  refine ⟨c, rest, _, rfl, front, back, ?_, ?_, by rw [Nat.zero_add]; rfl⟩
  · rw [hsource, htext, List.append_assoc]
  · have hhead : ∀ tokens, Lexes (byteLength front) (c :: rest) tokens →
        tokens.head? = some ((Lexeme.first c rest).token (byteLength front)) := by
      rintro _ ⟨⟩
      subst_vars
      rfl
    rw [Lexer.startingAt_append hsource, Nat.zero_add]
    exact hhead _ (lexes_tokens _ _)

theorem tokenize_of_first {c : Char} {rest : List Char}
    (h : (Lexeme.first c rest).text = c :: rest) :
    tokenize (String.ofList (c :: rest)) =
      [(Lexeme.first c rest).token 0, .endOfFile (byteLength (c :: rest))] := by
  have hlexes := lexes_tokenize (String.ofList (c :: rest))
  rw [String.toList_ofList] at hlexes
  have htext : c :: rest = (Lexeme.first c rest).text ++ [] := by rw [h, List.append_nil]
  refine hlexes.unique (.lexeme rfl htext ?_)
  rw [h, Nat.zero_add]
  exact .finish _

namespace Lexeme

open scoped Computability

variable {c : Char} {rest opening closing behind body : List Char} {kind : TokenKind}

theorem first_of_charOpening (h : charOpening? (c :: rest) = some (kind, opening, behind)) :
    first c rest = ((char (c :: rest)).or (charWithInvalidEscape (c :: rest))).getD
      (plain (.error .unterminatedChar) opening) := by
  have hc : c = 'b' ∨ c = '\'' := by
    obtain ⟨htext, ⟨-, rfl⟩ | ⟨-, rfl⟩⟩ := charOpening?_eq_some h
    · exact .inl (List.cons.inj htext).1
    · exact .inr (List.cons.inj htext).1
  have hwhitespace : whitespace (c :: rest) = none := by
    rcases hc with rfl | rfl
    · simp [whitespace, many?, show Text.isBlank 'b' = false by decide]
    · simp [whitespace, many?, show Text.isBlank '\'' = false by decide]
  have hcomment : comment (c :: rest) = none := by rcases hc with rfl | rfl <;> simp [comment]
  have hquote : c ≠ '"' := by rcases hc with rfl | rfl <;> decide
  rcases hchar : char (c :: rest) with _ | lexeme
  · rcases hinvalid : charWithInvalidEscape (c :: rest) with _ | lexeme <;>
      simp [first, rules, hwhitespace, hcomment, string, stringWithInvalidEscape,
        unterminatedString, hquote, hchar, hinvalid, unterminatedChar, h]
  · simp [first, rules, hwhitespace, hcomment, string, stringWithInvalidEscape,
      unterminatedString, hquote, hchar]

theorem first_string (h : body ∈ (quotedTexts isEscape '"')∗) (back : List Char) :
    first '"' (body ++ '"' :: back) = ⟨.string, '"' :: body ++ ['"'], unescape body⟩ := by
  simp [first_quote_eq, string, stringBody?_append h back]

theorem first_char {back : List Char}
    (hopening : charOpening? (c :: rest) = some (kind, opening, body ++ '\'' :: back))
    (h : body ∈ quotedTexts isEscape '\'') :
    first c rest = ⟨kind, opening ++ body ++ ['\''], unescape body⟩ := by
  simp [first_of_charOpening hopening, char, hopening, charBody?_append h back]

/-- What stands in the text of a literal between its quotes. -/
structure IsQuoted (lexeme : Lexeme) (escapes : Char → Bool) (opening : List Char) (quote : Char)
    (items : List (List Char)) : Prop where
  quotes : ∃ kind : TokenKind, kind.delimiters? = some (opening, [quote])
  text : lexeme.text = opening ++ items.flatten ++ [quote]
  items : ∀ item ∈ items, item ∈ quotedTexts escapes quote

theorem isQuoted_string {text : List Char} {lexeme : Lexeme} (h : string text = some lexeme) :
    ∃ items, lexeme.kind = .string ∧ lexeme.IsQuoted isEscape ['"'] '"' items ∧
      lexeme.value = unescape items.flatten := by
  unfold string at h
  split at h
  · obtain ⟨inner, hinner, rfl⟩ := Option.map_eq_some_iff.mp h
    obtain ⟨items, rfl, hitems⟩ := Language.mem_kstar.mp (stringBody?_mem hinner)
    exact ⟨items, rfl, ⟨⟨.string, rfl⟩, rfl, hitems⟩, rfl⟩
  · contradiction

theorem delimiters?_of_charOpening (h : charOpening? body = some (kind, opening, behind)) :
    kind.delimiters? = some (opening, ['\'']) := by
  obtain ⟨-, ⟨rfl, rfl⟩ | ⟨rfl, rfl⟩⟩ := charOpening?_eq_some h <;> rfl

theorem isQuoted_char {text : List Char} {lexeme : Lexeme} (h : char text = some lexeme) :
    ∃ item opening, lexeme.kind.delimiters? = some (opening, ['\'']) ∧
      lexeme.IsQuoted isEscape opening '\'' [item] ∧ lexeme.value = unescape [item].flatten := by
  simp only [char, Option.bind_eq_bind, Option.bind_eq_some_iff, Option.pure_def,
    Option.some.injEq] at h
  obtain ⟨⟨kind, opening, behind⟩, hopening, body, hbody, rfl⟩ := h
  have hkind := delimiters?_of_charOpening hopening
  refine ⟨body, opening, hkind, ⟨⟨kind, hkind⟩, ?_, ?_⟩, ?_⟩
  · simp
  · simpa using charBody?_mem hbody
  · simp

theorem rule_eq_of_gives {p : TokenKind → Prop} {rule other : Rule}
    (hforms : ∀ form ∈ formPatterns, form.rule = rule ∨ form.rule = other ∨
      ∀ kind ∈ form.kinds, ¬p kind)
    (hoperators : ∀ kind ∈ operators, ¬p kind) {pattern : Pattern} (hpattern : pattern ∈ patterns)
    {kind : TokenKind} (hgives : kind ∈ pattern.kinds) (hkind : p kind) :
    pattern.rule = rule ∨ pattern.rule = other := by
  rcases List.mem_append.mp hpattern with hpattern | hpattern
  · rcases hforms pattern hpattern with hrule | hother | hnone
    · exact .inl hrule
    · exact .inr hother
    · exact absurd hkind (hnone kind hgives)
  · obtain ⟨operator, hoperator, rfl⟩ := List.mem_pmap.mp hpattern
    obtain rfl := List.mem_singleton.mp hgives
    exact absurd hkind (hoperators _ hoperator)

theorem rule_eq_of_delimiters {pattern : Pattern} (hpattern : pattern ∈ patterns)
    (hgives : kind ∈ pattern.kinds) (hkind : kind.delimiters? ≠ none) :
    pattern.rule = string ∨ pattern.rule = char := by
  refine rule_eq_of_gives (p := fun kind => kind.delimiters? ≠ none) ?_ (by decide) hpattern hgives
    hkind
  simp only [formPatterns, List.forall_mem_cons]
  and_intros
  all_goals first
    | exact .inl rfl
    | exact .inr (.inl rfl)
    | exact .inr (.inr (by decide))
    | simp

theorem exists_isQuoted_first (h : (first c rest).kind.delimiters? = some (opening, closing)) :
    ∃ quote items, closing = [quote] ∧ (first c rest).IsQuoted isEscape opening quote items ∧
      (first c rest).value = unescape items.flatten ∧
      ((first c rest).kind = .string ∨ items.length = 1) := by
  have hproper : (first c rest).IsProper := by
    intro reason hreason
    simp [hreason, TokenKind.delimiters?] at h
  obtain ⟨pattern, hpattern, hread⟩ :=
    List.exists_of_findSome?_eq_some (findSome?_patterns hproper)
  rcases rule_eq_of_delimiters hpattern (pattern.gives _ _ hread) (by simp [h]) with hrule | hrule
  · rw [hrule] at hread
    obtain ⟨items, hkind, hquoted, hvalue⟩ := isQuoted_string hread
    obtain ⟨rfl, rfl⟩ : _ ∧ _ := by simpa [hkind, TokenKind.delimiters?] using h
    exact ⟨'"', items, rfl, hquoted, hvalue, .inl hkind⟩
  · rw [hrule] at hread
    obtain ⟨item, opening', hkind, hquoted, hvalue⟩ := isQuoted_char hread
    obtain ⟨rfl, rfl⟩ : opening' = opening ∧ ['\''] = closing := by simpa [hkind] using h
    exact ⟨'\'', [item], rfl, hquoted, hvalue, .inr rfl⟩

theorem first_of_quoted {quote : Char} {items : List (List Char)}
    (hkind : kind.delimiters? = some (opening, [quote]))
    (hitems : ∀ item ∈ items, item ∈ quotedTexts isEscape quote)
    (hone : kind = .string ∨ items.length = 1) :
    ∃ c rest, c :: rest = opening ++ items.flatten ++ [quote] ∧
      first c rest =
        ⟨kind, opening ++ items.flatten ++ [quote], unescape items.flatten⟩ := by
  unfold TokenKind.delimiters? at hkind
  split at hkind
  · obtain ⟨rfl, rfl⟩ : ['"'] = opening ∧ '"' = quote := by simpa using hkind
    have hbody := Language.mem_kstar.mpr ⟨items, rfl, hitems⟩
    exact ⟨'"', items.flatten ++ ['"'], rfl, first_string hbody []⟩
  · obtain ⟨rfl, rfl⟩ : ['\''] = opening ∧ '\'' = quote := by simpa using hkind
    obtain ⟨item, rfl⟩ := List.length_eq_one_iff.mp (hone.resolve_left (by decide))
    rw [List.flatten_singleton]
    exact ⟨'\'', item ++ ['\''], rfl, first_char rfl (hitems item (List.mem_singleton_self item))⟩
  · obtain ⟨rfl, rfl⟩ : ['b', '\''] = opening ∧ '\'' = quote := by simpa using hkind
    obtain ⟨item, rfl⟩ := List.length_eq_one_iff.mp (hone.resolve_left (by decide))
    rw [List.flatten_singleton]
    exact ⟨'b', '\'' :: (item ++ ['\'']), rfl,
      first_char rfl (hitems item (List.mem_singleton_self item))⟩
  · contradiction

end Lexeme

namespace Text

open Lexeme (quotedTexts isEscape mem_quotedTexts)

variable {c : Char} {quote : Char}

def escapeLetter? : Char → Option Char
  | '\n' => some 'n'
  | '\r' => some 'r'
  | '\t' => some 't'
  | '"' => some '"'
  | '\'' => some '\''
  | '\\' => some '\\'
  | '\x00' => some '0'
  | _ => none

/-- A character can be written between quotes as it is or as its escape. -/
inductive Writes (quote c : Char) : List Char → Prop where
  | raw (hquote : c ≠ quote) (hbackslash : c ≠ '\\') : Writes quote c [c]
  | escape {letter : Char} (h : escapeLetter? c = some letter) : Writes quote c ['\\', letter]

/-- Decoding comes to a backslash that it has to keep: the last character, or one in front of a
character that it does not escape. -/
inductive KeepsBackslash : List Char → Prop where
  | last : KeepsBackslash ['\\']
  | unsupported {c : Char} {text : List Char} (h : escaped? c = none) :
      KeepsBackslash ('\\' :: c :: text)
  | escape {c : Char} {text : List Char} (h : (escaped? c).isSome) (tail : KeepsBackslash text) :
      KeepsBackslash ('\\' :: c :: text)
  | raw {c : Char} {text : List Char} (h : c ≠ '\\') (tail : KeepsBackslash text) :
      KeepsBackslash (c :: text)

theorem escaped?_of_escapeLetter? {letter : Char} (h : escapeLetter? c = some letter) :
    escaped? letter = some c := by
  unfold escapeLetter? at h
  split at h
  case h_8 => contradiction
  all_goals
    obtain rfl := Option.some.inj h
    rfl

theorem unescape_cons (hc : c ≠ '\\') (text : List Char) :
    unescape (c :: text) = c :: unescape text := by
  cases text <;> simp [unescape, hc]

theorem unescape_escape {letter : Char} (h : escaped? letter = some c) (text : List Char) :
    unescape ('\\' :: letter :: text) = c :: unescape text := by
  simp [unescape, h]

theorem Writes.unescape_append {piece : List Char} (h : Writes quote c piece) (text : List Char) :
    piece ∈ quotedTexts isEscape quote ∧ unescape (piece ++ text) = c :: unescape text := by
  cases h with
  | raw hquote hbackslash =>
    exact ⟨mem_quotedTexts.mpr (.inr ⟨c, rfl, hquote, hbackslash⟩), unescape_cons hbackslash text⟩
  | escape h =>
    have hescaped := escaped?_of_escapeLetter? h
    refine ⟨mem_quotedTexts.mpr (.inl ⟨_, rfl, ?_⟩), unescape_escape hescaped text⟩
    simp [isEscape, hescaped]

theorem unescape_flatten {value : List Char} {pieces : List (List Char)}
    (h : List.Forall₂ (Writes quote) value pieces) :
    (∀ piece ∈ pieces, piece ∈ quotedTexts isEscape quote) ∧ unescape pieces.flatten = value := by
  induction h with
  | nil => exact ⟨by simp, rfl⟩
  | cons hpiece _ ih =>
    obtain ⟨hmem, hhead⟩ := hpiece.unescape_append _
    exact ⟨List.forall_mem_cons.mpr ⟨hmem, ih.1⟩, by rw [List.flatten_cons, hhead, ih.2]⟩

theorem KeepsBackslash.of_cons {text : List Char} (h : KeepsBackslash (c :: text))
    (hc : c ≠ '\\') : KeepsBackslash text := by
  cases h with
  | raw _ tail => exact tail
  | _ => contradiction

theorem not_keepsBackslash {items : List (List Char)}
    (h : ∀ item ∈ items, item ∈ quotedTexts isEscape quote) : ¬KeepsBackslash items.flatten := by
  induction items with
  | nil => rintro ⟨⟩
  | cons item items ih =>
    obtain ⟨hitem, hitems⟩ := List.forall_mem_cons.mp h
    intro hkeeps
    rcases mem_quotedTexts.mp hitem with ⟨c, rfl, hescape⟩ | ⟨c, rfl, -, hc⟩
    · cases hkeeps with
      | unsupported hnone => simp [isEscape, hnone] at hescape
      | escape _ tail => exact ih hitems tail
      | raw hbackslash => contradiction
    · exact ih hitems (hkeeps.of_cons hc)

end Text

/-- What a literal of a kind stands for: any text, or one character. -/
def TokenKind.Holds (kind : TokenKind) (value : List Char) : Prop :=
  kind = .string ∨ ∃ c, value = [c]

theorem exists_unescape_eq_singleton {quote : Char} {item : List Char}
    (h : item ∈ Lexeme.quotedTexts Lexeme.isEscape quote) : ∃ c, unescape item = [c] := by
  rcases Lexeme.mem_quotedTexts.mp h with ⟨c, rfl, hescape⟩ | ⟨c, rfl, -, -⟩
  · obtain ⟨e, he⟩ := Option.isSome_iff_exists.mp hescape
    exact ⟨e, Text.unescape_escape he []⟩
  · exact ⟨c, rfl⟩

theorem tokenize_written {kind : TokenKind} {opening value : List Char} {quote : Char}
    {pieces : List (List Char)} (hkind : kind.delimiters? = some (opening, [quote]))
    (hholds : kind.Holds value) (hwritten : List.Forall₂ (Text.Writes quote) value pieces) :
    tokenize (String.ofList (opening ++ pieces.flatten ++ [quote])) =
      [⟨kind, String.ofList value,
          .ofOffsets 0 (byteLength (opening ++ pieces.flatten ++ [quote]))⟩,
        .endOfFile (byteLength (opening ++ pieces.flatten ++ [quote]))] := by
  obtain ⟨hpieces, hvalue⟩ := Text.unescape_flatten hwritten
  have hone : kind = .string ∨ pieces.length = 1 := by
    refine hholds.imp id fun ⟨c, hc⟩ => ?_
    rw [← hwritten.length_eq, hc, List.length_singleton]
  obtain ⟨c, rest, htext, hfirst⟩ := Lexeme.first_of_quoted hkind hpieces hone
  rw [← htext, tokenize_of_first (by rw [hfirst, htext]), hfirst, hvalue, htext, Lexeme.token,
    Nat.zero_add]

theorem exists_body_of_mem_tokenize {source : String} {token : Token} {opening closing : List Char}
    (hmem : token ∈ tokenize source)
    (hkind : token.kind.delimiters? = some (opening, closing)) :
    ∃ body, token.ReadFrom source (opening ++ body ++ closing) ∧
      token.value = String.ofList (unescape body) ∧ ¬Text.KeepsBackslash body ∧
      token.kind.Holds token.value.toList := by
  have heof : token.kind ≠ .eof := by
    intro heof
    simp [heof, TokenKind.delimiters?] at hkind
  obtain ⟨c, rest, offset, rfl, hread⟩ := exists_readFrom hmem heof
  obtain ⟨quote, items, rfl, hquoted, hvalue, hone⟩ := Lexeme.exists_isQuoted_first hkind
  rw [hquoted.text] at hread
  refine ⟨items.flatten, hread, congrArg String.ofList hvalue,
    Text.not_keepsBackslash hquoted.items, hone.imp id fun hlength => ?_⟩
  obtain ⟨item, rfl⟩ := List.length_eq_one_iff.mp hlength
  rw [Lexeme.token, String.toList_ofList, hvalue, List.flatten_singleton]
  exact exists_unescape_eq_singleton (hquoted.items item (List.mem_singleton_self item))

/-- What is written between quotes is read back as a literal of that value and nothing else, and
every literal of a source holds what decoding makes of its body, with no backslash kept. -/
theorem tokenize_literal :
    (∀ kind opening quote value pieces, kind.delimiters? = some (opening, [quote]) →
      kind.Holds value → List.Forall₂ (Text.Writes quote) value pieces →
      tokenize (String.ofList (opening ++ pieces.flatten ++ [quote])) =
        [⟨kind, String.ofList value,
            .ofOffsets 0 (byteLength (opening ++ pieces.flatten ++ [quote]))⟩,
          .endOfFile (byteLength (opening ++ pieces.flatten ++ [quote]))]) ∧
    ∀ source token opening closing, token ∈ tokenize source →
      token.kind.delimiters? = some (opening, closing) →
      ∃ body, token.ReadFrom source (opening ++ body ++ closing) ∧
        token.value = String.ofList (unescape body) ∧ ¬Text.KeepsBackslash body ∧
        token.kind.Holds token.value.toList :=
  ⟨fun _ _ _ _ _ => tokenize_written, fun _ _ _ _ => exists_body_of_mem_tokenize⟩

/-- A quote as its escape and an apostrophe raw in a string, and the other way round in the literals
of single characters. -/
theorem tokenize_literal_quotes :
    (List.Forall₂ (Text.Writes '"') ['"', '\'', '\n'] [['\\', '"'], ['\''], ['\n']] ∧
      tokenize (String.ofList (['"'] ++ [['\\', '"'], ['\''], ['\n']].flatten ++ ['"'])) =
        [⟨.string, String.ofList ['"', '\'', '\n'], .ofOffsets 0 6⟩, .endOfFile 6]) ∧
    (List.Forall₂ (Text.Writes '\'') ['\''] [['\\', '\'']] ∧
      tokenize (String.ofList (['b', '\''] ++ [['\\', '\'']].flatten ++ ['\''])) =
        [⟨.byteChar, String.ofList ['\''], .ofOffsets 0 5⟩, .endOfFile 5]) ∧
    ⟨.char, "\"", .ofOffsets 2 5⟩ ∈ tokenize "x='\"'" ∧
    ∃ body, Token.ReadFrom ⟨.char, "\"", .ofOffsets 2 5⟩ "x='\"'" (['\''] ++ body ++ ['\'']) ∧
      "\"" = String.ofList (unescape body) ∧ ¬Text.KeepsBackslash body ∧
      TokenKind.char.Holds "\"".toList := by
  have hstring : List.Forall₂ (Text.Writes '"') ['"', '\'', '\n'] [['\\', '"'], ['\''], ['\n']] :=
    .cons (.escape rfl) (.cons (.raw (by decide) (by decide))
      (.cons (.raw (by decide) (by decide)) .nil))
  have hbyte : List.Forall₂ (Text.Writes '\'') ['\''] [['\\', '\'']] := .cons (.escape rfl) .nil
  have hmem : ⟨.char, "\"", .ofOffsets 2 5⟩ ∈ tokenize "x='\"'" := by decide
  refine ⟨⟨hstring, ?_⟩, ⟨hbyte, ?_⟩, hmem, ?_⟩
  · exact tokenize_literal.1 .string ['"'] '"' _ _ rfl (.inl rfl) hstring
  · exact tokenize_literal.1 .byteChar ['b', '\''] '\'' _ _ rfl (.inr ⟨'\'', rfl⟩) hbyte
  · exact tokenize_literal.2 _ _ ['\''] ['\''] hmem rfl

end LosslessSyntax
