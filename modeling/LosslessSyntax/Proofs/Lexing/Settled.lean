import LosslessSyntax.Proofs.Lexing.Quoted
import LosslessSyntax.Text.Offset
import Mathlib.Data.List.Find
import Mathlib.Order.Basic
/-!
How far a lexeme depends on the text behind it: unless it is a string that does not close, it is
settled by the fourteen bytes that follow it.
-/
namespace LosslessSyntax

open Text (byteLength)

namespace Text

theorem exists_cons_of_lt_byteLength {text : List Char} {n : Nat} (h : n + 4 < byteLength text) :
    ∃ c rest, text = c :: rest ∧ n < byteLength rest ∧ byteLength rest < byteLength text := by
  cases text with
  | nil => simp at h
  | cons c rest =>
    have hle := c.utf8Size_le_four
    have hpos := c.utf8Size_pos
    simp only [byteLength_cons] at h
    exact ⟨c, rest, rfl, by omega, by simp only [byteLength_cons]; omega⟩

theorem takeWhile_eq_of_lt {p : Char → Bool} {front back : List Char} (back' : List Char)
    (h : byteLength ((front ++ back).takeWhile p) < byteLength front) :
    (front ++ back').takeWhile p = (front ++ back).takeWhile p := by
  rw [List.takeWhile_append] at h ⊢
  split at h
  · rw [byteLength_append] at h
    omega
  · rename_i hshort
    rw [List.takeWhile_append, if_neg hshort, if_neg hshort]

theorem isPrefixOf_append {name front : List Char} (back : List Char)
    (h : byteLength name ≤ byteLength front) :
    name.isPrefixOf (front ++ back) = name.isPrefixOf front := by
  induction name generalizing front with
  | nil => simp
  | cons c name ih =>
    cases front with
    | nil =>
      have := c.utf8Size_pos
      simp at h
      omega
    | cons d front =>
      by_cases hcd : c = d
      · subst hcd
        simpa using ih (by simpa using h)
      · simp [List.isPrefixOf_cons_cons, beq_eq_false_iff_ne.mpr hcd]

end Text

namespace Lexeme

/-- A rule reads any text with a front in the same way, if the lexeme ends fourteen bytes before the
front does. -/
def Rule.SettledBy (rule : Rule) (front : List Char) : Prop :=
  ∀ back back', (∀ lexeme, rule (front ++ back) = some lexeme →
      byteLength lexeme.text + 14 ≤ byteLength front) →
    rule (front ++ back') = rule (front ++ back)

variable {front back : List Char}

theorem many?_settled {p : Char → Bool} (back' : List Char) (hfront : 0 < byteLength front)
    (h : ∀ run, many? p (front ++ back) = some run → byteLength run < byteLength front) :
    many? p (front ++ back') = many? p (front ++ back) := by
  have htake : (front ++ back').takeWhile p = (front ++ back).takeWhile p := by
    refine Text.takeWhile_eq_of_lt back' ?_
    rcases hrun : (front ++ back).takeWhile p with _ | ⟨c, run⟩
    · exact hfront
    · exact h (c :: run) (by simp [many?, hrun])
  simp only [many?, htake]

theorem word?_settled {first rest : Char → Bool} (back' : List Char)
    (hfront : 0 < byteLength front) (h : ∀ word, word? first rest (front ++ back) = some word →
      byteLength word < byteLength front) :
    word? first rest (front ++ back') = word? first rest (front ++ back) := by
  rcases front with _ | ⟨c, tail⟩
  · contradiction
  cases hc : first c
  · simp [word?, hc]
  · have hword := h (c :: (tail ++ back).takeWhile rest) (by simp [word?, hc])
    have htake : (tail ++ back').takeWhile rest = (tail ++ back).takeWhile rest :=
      Text.takeWhile_eq_of_lt back' (by simpa using hword)
    simp [word?, hc, htake]

theorem settledBy_whitespace (hfront : 0 < byteLength front) :
    Rule.SettledBy whitespace front := by
  intro back back' h
  have hrun : ∀ run, many? Text.isBlank (front ++ back) = some run →
      byteLength run < byteLength front := by
    intro run hrun
    have hend := h (plain .whitespace run) (by simp [whitespace, hrun])
    simp only [plain] at hend
    omega
  simp only [whitespace, many?_settled back' hfront hrun]

theorem settledBy_comment (hfront : 15 ≤ byteLength front) : Rule.SettledBy comment front := by
  intro back back' h
  obtain ⟨c, front, rfl, hlong, -⟩ := Text.exists_cons_of_lt_byteLength hfront
  obtain ⟨d, front, rfl, -⟩ := Text.exists_cons_of_lt_byteLength hlong
  by_cases hslashes : c = '/' ∧ d = '/'
  · obtain ⟨rfl, rfl⟩ := hslashes
    have hend := h _ rfl
    have htake : (front ++ back').takeWhile (· != '\n') = (front ++ back).takeWhile (· != '\n') :=
      Text.takeWhile_eq_of_lt back' (by simp [plain] at hend; omega)
    simp [comment, htake]
  · simp only [comment, List.cons_append]
    split
    · simp_all
    · split
      · simp_all
      · rfl

theorem settledBy_directive (hfront : 15 ≤ byteLength front) :
    Rule.SettledBy directive front := by
  intro back back' h
  obtain ⟨c, front, rfl, hlong, -⟩ := Text.exists_cons_of_lt_byteLength hfront
  by_cases hc : c = '#'
  · subst hc
    have hword : ∀ word, word? isLower isWordPart (front ++ back) = some word →
        byteLength word < byteLength front := by
      intro word hword
      have hend := h (plain .directive ('#' :: word)) (by simp [directive, hword])
      simp [plain] at hend
      omega
    simp only [directive, List.cons_append, word?_settled back' (by omega) hword]
  · simp [directive, hc]

theorem settledBy_radixNumber (letter : Char) (digit : Char → Bool)
    (hfront : 15 ≤ byteLength front) : Rule.SettledBy (radixNumber letter digit) front := by
  intro back back' h
  obtain ⟨c, front, rfl, hlong, -⟩ := Text.exists_cons_of_lt_byteLength hfront
  obtain ⟨d, front, rfl, hlong', -⟩ := Text.exists_cons_of_lt_byteLength hlong
  by_cases hzero : c = '0' ∧ d = letter
  · obtain ⟨rfl, rfl⟩ := hzero
    have hrun : ∀ run, many? (fun c => digit c || c == '_') (front ++ back) = some run →
        byteLength run < byteLength front := by
      intro run hrun
      have hend := h (plain .number ('0' :: d :: run)) (by simp [radixNumber, hrun])
      simp [plain] at hend
      omega
    simp only [radixNumber, List.cons_append, many?_settled back' (by omega) hrun]
  · by_cases hc : c = '0'
    · have hd : d ≠ letter := fun hd => hzero ⟨hc, hd⟩
      simp [radixNumber, hc, hd]
    · simp [radixNumber, hc]

theorem byteLength_of_mem_numberSuffixes : ∀ name ∈ numberSuffixes, byteLength name ≤ 5 := by
  decide

theorem settledBy_decimalNumber (hfront : 15 ≤ byteLength front) :
    Rule.SettledBy decimalNumber front := by
  intro back back' h
  have hword : ∀ digits, word? isDigit (fun c => isDigit c || c == '_') (front ++ back) =
      some digits → byteLength digits + 14 ≤ byteLength front := by
    intro digits hdigits
    have hend := h _ (by simp only [decimalNumber, hdigits, Option.bind_eq_bind, Option.bind_some]; rfl)
    simp only [plain, Text.byteLength_append] at hend
    omega
  have hsame := word?_settled back' (by omega : 0 < byteLength front)
    fun digits hdigits => Nat.lt_of_lt_of_le (by omega) (hword digits hdigits)
  rcases hdigits : word? isDigit (fun c => isDigit c || c == '_') (front ++ back) with _ | digits
  · simp [decimalNumber, hsame, hdigits]
  · -- the digits are in the front, and so is what may be a suffix
    have hlong := hword digits hdigits
    obtain ⟨-, hprefix⟩ := front_word? hdigits
    obtain ⟨rest, rfl⟩ : digits <+: front :=
      Text.prefix_of_byteLength_le hprefix (List.prefix_append _ _) (by omega)
    rw [Text.byteLength_append] at hlong
    have hsuffix (back : List Char) :
        (numberSuffixes.find? fun name => name.isPrefixOf (rest ++ back)) =
          numberSuffixes.find? fun name => name.isPrefixOf rest := by
      refine List.find?_congr fun name hname => Text.isPrefixOf_append back ?_
      have := byteLength_of_mem_numberSuffixes name hname
      omega
    simp only [decimalNumber, hsame, hdigits, Option.bind_eq_bind, Option.bind_some]
    rw [List.append_assoc, List.append_assoc, List.drop_left, List.drop_left, hsuffix, hsuffix]

theorem settledBy_number (hfront : 15 ≤ byteLength front) : Rule.SettledBy number front := by
  have horElse {first next : Rule} (hfirst : first.SettledBy front) (hnext : next.SettledBy front) :
      Rule.SettledBy (fun text => first text <|> next text) front := by
    intro back back' h
    simp only [Option.orElse_eq_orElse, Option.orElse_eq_or] at h ⊢
    rcases hread : first (front ++ back) with _ | lexeme
    · have hsame := hfirst back back' (by simp [hread])
      rw [hsame, hread, Option.none_or, Option.none_or]
      exact hnext back back' (by simpa [hread] using h)
    · have hsame := hfirst back back' (by simpa [hread] using h)
      rw [hsame, hread, Option.some_or, Option.some_or]
  exact horElse (settledBy_radixNumber _ _ hfront) (horElse (settledBy_radixNumber _ _ hfront)
    (horElse (settledBy_radixNumber _ _ hfront) (settledBy_decimalNumber hfront)))

theorem settledBy_lowerWord (hfront : 15 ≤ byteLength front) :
    Rule.SettledBy lowerWord front := by
  intro back back' h
  have hword : ∀ word, word? (fun c => isLower c || c == '_') isWordPart (front ++ back) =
      some word → byteLength word < byteLength front := by
    intro word hword
    have hend := h _ (by simp only [lowerWord, hword, Option.map_some]; rfl)
    simp only [plain] at hend
    omega
  simp only [lowerWord, word?_settled back' (by omega) hword]

theorem settledBy_upperWord (hfront : 15 ≤ byteLength front) :
    Rule.SettledBy upperWord front := by
  intro back back' h
  have hword : ∀ word, word? isUpper isWordPart (front ++ back) = some word →
      byteLength word < byteLength front := by
    intro word hword
    have hend := h _ (by simp only [upperWord, hword, Option.map_some]; rfl)
    simp only [plain] at hend
    omega
  simp only [upperWord, word?_settled back' (by omega) hword]

theorem settledBy_operator {kind : TokenKind} (hkind : kind ∈ operators)
    (hfront : 15 ≤ byteLength front) : Rule.SettledBy (operator kind) front := by
  intro back back' _
  have hshort : ∀ kind ∈ operators, byteLength kind.text.toList ≤ 2 := by decide
  have hspelling : byteLength kind.text.toList ≤ byteLength front := by
    have := hshort kind hkind
    omega
  simp only [operator, Text.isPrefixOf_append _ hspelling]

theorem charOpening?_settled (hfront : 15 ≤ byteLength front) :
    (∃ kind opening rest, 9 ≤ byteLength rest ∧
      ∀ back, charOpening? (front ++ back) = some (kind, opening, rest ++ back)) ∨
    ∀ back, charOpening? (front ++ back) = none := by
  have hsizes : '\''.utf8Size = 1 ∧ 'b'.utf8Size = 1 := ⟨rfl, rfl⟩
  obtain ⟨c, front, rfl, hlong, -⟩ := Text.exists_cons_of_lt_byteLength hfront
  obtain ⟨d, front, rfl, -⟩ := Text.exists_cons_of_lt_byteLength hlong
  by_cases hquote : c = '\''
  · subst hquote
    exact .inl ⟨.char, ['\''], d :: front, by omega, fun back => rfl⟩
  by_cases hbyte : c = 'b' ∧ d = '\''
  · obtain ⟨rfl, rfl⟩ := hbyte
    simp only [Text.byteLength_cons] at hfront
    exact .inl ⟨.byteChar, ['b', '\''], front, by omega, fun back => rfl⟩
  · right
    intro back
    simp only [charOpening?, List.cons_append]
    split <;> simp_all

theorem exists_three (hfront : 9 ≤ byteLength front) :
    ∃ c d e rest, front = c :: d :: e :: rest := by
  obtain ⟨c, front, rfl, hlong, -⟩ := Text.exists_cons_of_lt_byteLength hfront
  obtain ⟨d, front, rfl, hlong, -⟩ := Text.exists_cons_of_lt_byteLength hlong
  rcases front with _ | ⟨e, front⟩
  · contradiction
  · exact ⟨c, d, e, front, rfl⟩

theorem charBody?_cons (c d e : Char) (rest : List Char) :
    charBody? (c :: d :: e :: rest) = charBody? [c, d, e] := by
  unfold charBody?
  by_cases hc : c = '\\' <;> by_cases hd : d = '\'' <;> by_cases he : e = '\'' <;> simp [*]

theorem settledBy_char (hfront : 15 ≤ byteLength front) : Rule.SettledBy char front := by
  intro back back' _
  rcases charOpening?_settled hfront with ⟨kind, opening, rest, hrest, hopening⟩ | hopening
  · obtain ⟨c, d, e, rest, rfl⟩ := exists_three hrest
    simp only [char, hopening, Option.bind_eq_bind, Option.bind_some, List.cons_append,
      charBody?_cons c d e]
  · simp [char, hopening]

theorem settledBy_charWithInvalidEscape (hfront : 15 ≤ byteLength front) :
    Rule.SettledBy charWithInvalidEscape front := by
  intro back back' _
  rcases charOpening?_settled hfront with ⟨kind, opening, rest, hrest, hopening⟩ | hopening
  · obtain ⟨c, d, e, rest, rfl⟩ := exists_three hrest
    simp only [charWithInvalidEscape, hopening, Option.bind_eq_bind, Option.bind_some,
      List.cons_append]
    by_cases hc : c = '\\' <;> by_cases he : e = '\'' <;> simp [*]
  · simp [charWithInvalidEscape, hopening]

theorem settledBy_unterminatedChar (hfront : 15 ≤ byteLength front) :
    Rule.SettledBy unterminatedChar front := by
  intro back back' _
  rcases charOpening?_settled hfront with ⟨kind, opening, rest, -, hopening⟩ | hopening
  · simp [unterminatedChar, hopening]
  · simp [unterminatedChar, hopening]

theorem stringBody?_closed {escapes : Char → Bool} {text body : List Char}
    (h : stringBody? escapes text = some body) (back : List Char) :
    stringBody? escapes (body ++ '"' :: back) = some body :=
  stringBody?_append (stringBody?_mem h) back

theorem settledBy_of_mem_rules {c : Char} (hquote : c ≠ '"')
    (hfront : 15 ≤ byteLength (c :: front)) :
    ∀ rule ∈ rules, Rule.SettledBy rule (c :: front) := by
  have hstrings {rule : Rule} (hrule : ∀ text, rule (c :: text) = none) :
      Rule.SettledBy rule (c :: front) := by
    intro back back' _
    rw [List.cons_append, List.cons_append, hrule, hrule]
  intro rule hrule
  rcases List.mem_append.mp hrule with hrule | hrule
  · simp only [List.mem_cons, List.not_mem_nil, or_false] at hrule
    rcases hrule with rfl | rfl | rfl | rfl | rfl | rfl | rfl | rfl | rfl | rfl | rfl | rfl
    · exact settledBy_whitespace (by omega)
    · exact settledBy_comment hfront
    · exact hstrings fun text => by simp [string, hquote]
    · exact hstrings fun text => by simp [stringWithInvalidEscape, hquote]
    · exact hstrings fun text => by simp [unterminatedString, hquote]
    · exact settledBy_char hfront
    · exact settledBy_charWithInvalidEscape hfront
    · exact settledBy_unterminatedChar hfront
    · exact settledBy_directive hfront
    · exact settledBy_number hfront
    · exact settledBy_lowerWord hfront
    · exact settledBy_upperWord hfront
  · obtain ⟨kind, hkind, rfl⟩ := List.mem_map.mp hrule
    exact settledBy_operator hkind hfront

theorem findSome?_settled {rules : List Rule} (hrules : ∀ rule ∈ rules, Rule.SettledBy rule front)
    (back' : List Char) (h : ∀ lexeme, rules.findSome? (· (front ++ back)) = some lexeme →
      byteLength lexeme.text + 14 ≤ byteLength front) :
    rules.findSome? (· (front ++ back')) = rules.findSome? (· (front ++ back)) := by
  induction rules with
  | nil => rfl
  | cons rule rules ih =>
    rcases hread : rule (front ++ back) with _ | lexeme
    · have hsame := hrules rule List.mem_cons_self back back' (by simp [hread])
      simp only [List.findSome?_cons, hread, hsame] at h ⊢
      exact ih (fun other hother => hrules other (List.mem_cons_of_mem _ hother)) h
    · have hend : byteLength lexeme.text + 14 ≤ byteLength front := h lexeme (by simp [hread])
      have hsame := hrules rule List.mem_cons_self back back' (by simpa [hread] using hend)
      simp [hsame, hread]

/-- Whether a lexeme is a string that had to be scanned to its end or further. -/
def IsOpenString (lexeme : Lexeme) : Prop :=
  (lexeme.kind = .error .unterminatedString ∨ lexeme.kind = .error .invalidEscape) ∧
    lexeme.text.head? = some '"'

theorem first_quote_eq (rest : List Char) :
    first '"' rest = ((string ('"' :: rest)).or (stringWithInvalidEscape ('"' :: rest))).getD
      (plain (.error .unterminatedString) ('"' :: rest.takeWhile (· != '\n'))) := by
  have hwhitespace : whitespace ('"' :: rest) = none := by
    simp [whitespace, many?, show Text.isBlank '"' = false by decide]
  have hcomment : comment ('"' :: rest) = none := by simp [comment]
  rcases hstring : string ('"' :: rest) with _ | lexeme
  · rcases hinvalid : stringWithInvalidEscape ('"' :: rest) with _ | lexeme <;>
      simp [first, rules, hwhitespace, hcomment, hstring, hinvalid, unterminatedString]
  · simp [first, rules, hwhitespace, hcomment, hstring]

theorem first_quote (rest : List Char) :
    string ('"' :: rest) = some (first '"' rest) ∨
      string ('"' :: rest) = none ∧ (first '"' rest).IsOpenString := by
  rcases hstring : string ('"' :: rest) with _ | lexeme
  · right
    refine ⟨rfl, ?_⟩
    rcases hinvalid : stringWithInvalidEscape ('"' :: rest) with _ | lexeme
    · simp only [first_quote_eq, hstring, hinvalid, Option.none_or, Option.getD_none]
      exact ⟨.inl rfl, rfl⟩
    · simp only [first_quote_eq, hstring, hinvalid, Option.none_or, Option.getD_some]
      obtain ⟨body, -, rfl⟩ := Option.map_eq_some_iff.mp hinvalid
      exact ⟨.inr rfl, rfl⟩
  · left
    simp [first_quote_eq, hstring]

theorem string_settled (front : List Char) {back : List Char} {lexeme : Lexeme}
    (h : string (front ++ back) = some lexeme)
    (hend : byteLength lexeme.text ≤ byteLength front) (back' : List Char) :
    string (front ++ back') = some lexeme := by
  obtain ⟨rest, rfl⟩ := Text.prefix_of_byteLength_le (reads_string _ _ h).front
    (List.prefix_append front back) hend
  unfold string at h
  split at h
  · obtain ⟨body, hbody, rfl⟩ := Option.map_eq_some_iff.mp h
    have hclosed := stringBody?_closed hbody (rest ++ back')
    simp [string, hclosed]
  · contradiction

/-- Fourteen bytes behind a lexeme settle it, unless it is a string that does not close. -/
theorem first_settled {c : Char} (back' : List Char)
    (hend : byteLength (first c (front ++ back)).text + 14 ≤ byteLength (c :: front))
    (hclosed : ¬(first c (front ++ back)).IsOpenString) :
    first c (front ++ back') = first c (front ++ back) := by
  have hpos := Text.byteLength_pos (begins_first c (front ++ back)).nonempty
  by_cases hquote : c = '"'
  · subst hquote
    rcases first_quote (front ++ back) with hstring | ⟨-, hopen⟩
    · have hsame := string_settled ('"' :: front) hstring (by omega) back'
      rcases first_quote (front ++ back') with hstring' | ⟨hnone, -⟩
      · exact Option.some.inj (hstring'.symm.trans hsame)
      · simp_all
    · contradiction
  · have hrules : ∀ rule ∈ rules, Rule.SettledBy rule (c :: front) :=
      settledBy_of_mem_rules hquote (by omega)
    have hfound : ∀ lexeme, rules.findSome? (· (c :: front ++ back)) = some lexeme →
        byteLength lexeme.text + 14 ≤ byteLength (c :: front) := by
      intro lexeme hlexeme
      rw [List.cons_append] at hlexeme
      simpa [first, hlexeme] using hend
    have hsame := findSome?_settled hrules back' hfound
    rw [List.cons_append, List.cons_append] at hsame
    simp only [first, hsame]

end Lexeme

end LosslessSyntax
