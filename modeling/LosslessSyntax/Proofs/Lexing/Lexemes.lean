import LosslessSyntax.Token.Lexeme
import Mathlib.Data.List.Basic
/-!
What every lexeme has in common: it is a piece of text from the front of the source, never empty
and never the end of file, and kind and text together determine its value.
-/
namespace LosslessSyntax

namespace Lexeme

def decode (kind : TokenKind) (text : List Char) : List Char :=
  match kind with
  | .string | .char => Text.unescape (text.drop 1).dropLast
  | .byteChar => Text.unescape (text.drop 2).dropLast
  | _ => text

structure Begins (lexeme : Lexeme) (text : List Char) : Prop where
  nonempty : lexeme.text ≠ []
  front : lexeme.text <+: text
  kind_ne_eof : lexeme.kind ≠ .eof
  value_eq : lexeme.value = decode lexeme.kind lexeme.text

def Rule.Reads (rule : Rule) : Prop := ∀ text lexeme, rule text = some lexeme → lexeme.Begins text

def IsPlain (kind : TokenKind) : Prop :=
  kind ≠ .eof ∧ kind ≠ .string ∧ kind ≠ .char ∧ kind ≠ .byteChar

theorem begins_plain {kind : TokenKind} {front text : List Char} (hkind : IsPlain kind)
    (hne : front ≠ []) (hfront : front <+: text) : (plain kind front).Begins text := by
  obtain ⟨heof, hstring, hchar, hbyteChar⟩ := hkind
  refine ⟨hne, hfront, heof, ?_⟩
  unfold plain decode
  split <;> first | rfl | contradiction

theorem many?_eq_some {p : Char → Bool} {text run : List Char} (h : many? p text = some run) :
    run ≠ [] ∧ run = text.takeWhile p := by
  unfold many? at h
  split at h
  · contradiction
  · rename_i hrun
    obtain rfl := Option.some.inj h
    exact ⟨by simpa using hrun, rfl⟩

theorem word?_eq_some {first rest : Char → Bool} {text word : List Char}
    (h : word? first rest text = some word) :
    ∃ c back, text = c :: back ∧ word = c :: back.takeWhile rest ∧ first c := by
  cases text with
  | nil => simp [word?] at h
  | cons c back =>
    simp only [word?, Option.ite_none_right_eq_some, Option.some.injEq] at h
    exact ⟨c, back, rfl, h.2.symm, h.1⟩

theorem front_many? {p : Char → Bool} {text run : List Char} (h : many? p text = some run) :
    run ≠ [] ∧ run <+: text := by
  obtain ⟨hne, rfl⟩ := many?_eq_some h
  exact ⟨hne, List.takeWhile_prefix p⟩

theorem front_word? {first rest : Char → Bool} {text word : List Char}
    (h : word? first rest text = some word) : word ≠ [] ∧ word <+: text := by
  obtain ⟨c, back, rfl, rfl, -⟩ := word?_eq_some h
  exact ⟨by simp, List.cons_prefix_cons.mpr ⟨rfl, List.takeWhile_prefix rest⟩⟩

theorem front_stringBody? {escapes : Char → Bool} {text body : List Char}
    (h : stringBody? escapes text = some body) : body ++ ['"'] <+: text := by
  fun_induction stringBody? escapes text generalizing body with
  | case1 => contradiction
  | case2 c hc =>
    obtain rfl := Option.some.inj h
    simpa using (eq_of_beq hc).symm
  | case3 => contradiction
  | case4 c d text hc =>
    obtain rfl := Option.some.inj h
    simpa using (eq_of_beq hc).symm
  | case5 c d text hquote hbackslash hescape ih =>
    obtain ⟨inner, hinner, rfl⟩ := Option.map_eq_some_iff.mp h
    simpa using ih hinner
  | case6 => contradiction
  | case7 c d text hquote hbackslash ih =>
    obtain ⟨inner, hinner, rfl⟩ := Option.map_eq_some_iff.mp h
    simpa using ih hinner

theorem charOpening?_eq_some {text opening rest : List Char} {kind : TokenKind}
    (h : charOpening? text = some (kind, opening, rest)) :
    text = opening ++ rest ∧ (kind = .byteChar ∧ opening = ['b', '\''] ∨
      kind = .char ∧ opening = ['\'']) := by
  unfold charOpening? at h
  split at h
  · obtain ⟨rfl, rfl, rfl⟩ : _ ∧ _ ∧ _ := by simpa using h
    simp
  · obtain ⟨rfl, rfl, rfl⟩ : _ ∧ _ ∧ _ := by simpa using h
    simp
  · contradiction

theorem front_charBody? {text body : List Char} (h : charBody? text = some body) :
    body ++ ['\''] <+: text := by
  unfold charBody? at h
  split at h
  · split at h
    · obtain rfl := Option.some.inj h
      simp
    · contradiction
  · split at h
    · contradiction
    · obtain rfl := Option.some.inj h
      simp
  · contradiction

theorem reads_whitespace : Rule.Reads whitespace := by
  intro text lexeme h
  obtain ⟨run, hrun, rfl⟩ := Option.map_eq_some_iff.mp h
  obtain ⟨hne, hfront⟩ := front_many? hrun
  exact begins_plain (by simp [IsPlain]) hne hfront

theorem reads_comment : Rule.Reads comment := by
  intro text lexeme h
  unfold comment at h
  split at h
  · obtain rfl := Option.some.inj h
    exact begins_plain (by simp [IsPlain]) (by simp) (by simp [List.takeWhile_prefix])
  · contradiction

theorem reads_string : Rule.Reads string := by
  intro text lexeme h
  unfold string at h
  split at h
  · obtain ⟨body, hbody, rfl⟩ := Option.map_eq_some_iff.mp h
    exact ⟨by simp, by simpa using front_stringBody? hbody, by simp, by simp [decode]⟩
  · contradiction

theorem reads_stringWithInvalidEscape : Rule.Reads stringWithInvalidEscape := by
  intro text lexeme h
  unfold stringWithInvalidEscape at h
  split at h
  · obtain ⟨body, hbody, rfl⟩ := Option.map_eq_some_iff.mp h
    exact begins_plain (by simp [IsPlain]) (by simp) (by simpa using front_stringBody? hbody)
  · contradiction

theorem reads_unterminatedString : Rule.Reads unterminatedString := by
  intro text lexeme h
  unfold unterminatedString at h
  split at h
  · obtain rfl := Option.some.inj h
    exact begins_plain (by simp [IsPlain]) (by simp) (by simp [List.takeWhile_prefix])
  · contradiction

theorem reads_char : Rule.Reads char := by
  intro text lexeme h
  simp only [char, Option.bind_eq_bind, Option.bind_eq_some_iff, Option.pure_def,
    Option.some.injEq] at h
  obtain ⟨⟨kind, opening, rest⟩, hopening, body, hbody, rfl⟩ := h
  obtain ⟨rfl, hkind⟩ := charOpening?_eq_some hopening
  refine ⟨by simp, by simpa using front_charBody? hbody, ?_, ?_⟩
  · rcases hkind with ⟨rfl, -⟩ | ⟨rfl, -⟩ <;> simp
  · rcases hkind with ⟨rfl, rfl⟩ | ⟨rfl, rfl⟩ <;> simp [decode]

theorem reads_charWithInvalidEscape : Rule.Reads charWithInvalidEscape := by
  intro text lexeme h
  simp only [charWithInvalidEscape, Option.bind_eq_bind, Option.bind_eq_some_iff] at h
  obtain ⟨⟨kind, opening, rest⟩, hopening, h⟩ := h
  obtain ⟨rfl, -⟩ := charOpening?_eq_some hopening
  split at h
  · rename_i c back hrest
    obtain rfl : rest = '\\' :: c :: '\'' :: back := hrest
    split at h
    · contradiction
    · obtain rfl := Option.some.inj h
      exact begins_plain (by simp [IsPlain]) (by simp) (by simp)
  · contradiction

theorem reads_unterminatedChar : Rule.Reads unterminatedChar := by
  intro text lexeme h
  obtain ⟨⟨kind, opening, rest⟩, hopening, rfl⟩ := Option.map_eq_some_iff.mp h
  obtain ⟨rfl, hkind⟩ := charOpening?_eq_some hopening
  refine begins_plain (by simp [IsPlain]) ?_ (List.prefix_append _ _)
  rcases hkind with ⟨-, rfl⟩ | ⟨-, rfl⟩ <;> simp

theorem reads_directive : Rule.Reads directive := by
  intro text lexeme h
  unfold directive at h
  split at h
  · obtain ⟨name, hname, rfl⟩ := Option.map_eq_some_iff.mp h
    exact begins_plain (by simp [IsPlain]) (by simp) (by simpa using (front_word? hname).2)
  · contradiction

theorem reads_radixNumber (letter : Char) (digit : Char → Bool) :
    Rule.Reads (radixNumber letter digit) := by
  intro text lexeme h
  unfold radixNumber at h
  split at h
  · rename_i c back
    split at h
    · rename_i hc
      obtain ⟨digits, hdigits, rfl⟩ := Option.map_eq_some_iff.mp h
      obtain rfl : c = letter := by simpa using hc
      exact begins_plain (by simp [IsPlain]) (by simp) (by simpa using (front_many? hdigits).2)
    · contradiction
  · contradiction

theorem reads_decimalNumber : Rule.Reads decimalNumber := by
  intro text lexeme h
  simp only [decimalNumber, Option.bind_eq_bind, Option.bind_eq_some_iff, Option.pure_def,
    Option.some.injEq] at h
  obtain ⟨digits, hdigits, rfl⟩ := h
  obtain ⟨hne, back, rfl⟩ := front_word? hdigits
  refine begins_plain (by simp [IsPlain]) (by simp [hne]) ?_
  rw [List.drop_left, List.prefix_append_right_inj]
  rcases hsuffix : numberSuffixes.find? fun name => name.isPrefixOf back with _ | suffix
  · rw [hsuffix]
    exact List.nil_prefix
  · have hprefix := List.find?_some hsuffix
    rw [hsuffix]
    exact List.isPrefixOf_iff_prefix.mp hprefix

theorem reads_number : Rule.Reads number := by
  intro text lexeme h
  simp only [number, Option.orElse_eq_orElse, Option.orElse_eq_or, Option.or_eq_some_iff] at h
  rcases h with h | ⟨-, h | ⟨-, h | ⟨-, h⟩⟩⟩
  · exact reads_radixNumber _ _ text lexeme h
  · exact reads_radixNumber _ _ text lexeme h
  · exact reads_radixNumber _ _ text lexeme h
  · exact reads_decimalNumber text lexeme h

theorem isPlain_ofReserved? {word : String} {kind : TokenKind}
    (h : TokenKind.ofReserved? word = some kind) : IsPlain kind := by
  have hmem : ∀ entry ∈ TokenKind.reservedWords, IsPlain entry.2 := by
    simp [TokenKind.reservedWords, TokenKind.keywords, TokenKind.primitiveTypes, IsPlain]
  obtain ⟨front, back, hwords, -⟩ := List.lookup_eq_some_iff.mp h
  exact hmem (word, kind) (by simp [hwords])

theorem reads_lowerWord : Rule.Reads lowerWord := by
  intro text lexeme h
  obtain ⟨name, hname, rfl⟩ := Option.map_eq_some_iff.mp h
  obtain ⟨hne, hfront⟩ := front_word? hname
  refine begins_plain ?_ hne hfront
  rcases hkind : TokenKind.ofReserved? (String.ofList name) with _ | kind
  · simp [IsPlain]
  · exact isPlain_ofReserved? hkind

theorem reads_upperWord : Rule.Reads upperWord := by
  intro text lexeme h
  obtain ⟨name, hname, rfl⟩ := Option.map_eq_some_iff.mp h
  obtain ⟨hne, hfront⟩ := front_word? hname
  exact begins_plain (by simp [IsPlain]) hne hfront

theorem isPlain_operator : ∀ kind ∈ operators, IsPlain kind ∧ kind.text.toList ≠ [] := by
  simp [operators, IsPlain, TokenKind.text]

theorem reads_operator {kind : TokenKind} (hkind : kind ∈ operators) :
    Rule.Reads (operator kind) := by
  intro text lexeme h
  obtain ⟨hplain, hne⟩ := isPlain_operator kind hkind
  simp only [operator, Option.ite_none_right_eq_some, List.isPrefixOf_iff_prefix] at h
  obtain ⟨hfront, h⟩ := h
  obtain rfl := Option.some.inj h
  exact begins_plain hplain hne hfront

theorem reads_of_mem_rules : ∀ rule ∈ rules, Rule.Reads rule := by
  intro rule hrule
  rcases List.mem_append.mp hrule with hrule | hrule
  · simp only [List.mem_cons, List.not_mem_nil, or_false] at hrule
    rcases hrule with rfl | rfl | rfl | rfl | rfl | rfl | rfl | rfl | rfl | rfl | rfl | rfl
    · exact reads_whitespace
    · exact reads_comment
    · exact reads_string
    · exact reads_stringWithInvalidEscape
    · exact reads_unterminatedString
    · exact reads_char
    · exact reads_charWithInvalidEscape
    · exact reads_unterminatedChar
    · exact reads_directive
    · exact reads_number
    · exact reads_lowerWord
    · exact reads_upperWord
  · obtain ⟨kind, hkind, rfl⟩ := List.mem_map.mp hrule
    exact reads_operator hkind

theorem begins_first (c : Char) (rest : List Char) : (first c rest).Begins (c :: rest) := by
  rcases hfound : rules.findSome? (· (c :: rest)) with _ | lexeme
  · have hfirst : first c rest = plain (.error .unrecognisedCharacter) [c] := by
      simp [first, hfound]
    rw [hfirst]
    exact begins_plain (by simp [IsPlain]) (by simp) (by simp)
  · have hfirst : first c rest = lexeme := by simp [first, hfound]
    obtain ⟨rule, hrule, hlexeme⟩ := List.exists_of_findSome?_eq_some hfound
    rw [hfirst]
    exact reads_of_mem_rules rule hrule _ _ hlexeme

end Lexeme

end LosslessSyntax
