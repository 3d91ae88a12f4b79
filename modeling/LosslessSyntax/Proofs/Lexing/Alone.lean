import LosslessSyntax.Proofs.Lexing.Settled
import Mathlib.Data.List.TakeWhile
/-!
A lexeme is read from its own text alone as it is read in front of others: no rule that does not
apply to a text applies to less of it, and the one that applies needs no more than the lexeme.
-/
namespace LosslessSyntax

namespace Lexeme

/-- A rule that reads from a text whatever it reads from less of it, and each lexeme from no more
than its own text. -/
structure Rule.ReadsAlone (rule : Rule) : Prop where
  none : ∀ text back, rule (text ++ back) = none → rule text = none
  some : ∀ lexeme back, rule (lexeme.text ++ back) = some lexeme → rule lexeme.text = some lexeme

section Alone

variable {text back : List Char}

theorem takeWhile_shorter {p : Char → Bool} {run front : List Char}
    (h : (run ++ (front ++ back)).takeWhile p = run) : (run ++ front).takeWhile p = run := by
  have hall : ∀ c ∈ run, p c := fun c hc => List.mem_takeWhile_imp (h ▸ hc)
  rw [List.takeWhile_append_of_pos hall] at h ⊢
  rcases front with _ | ⟨c, front⟩
  · simp
  · cases hc : p c <;> simp [hc] at h ⊢

theorem takeWhile_alone {p : Char → Bool} {run : List Char}
    (h : (run ++ back).takeWhile p = run) : run.takeWhile p = run := by
  have hshorter : (run ++ []).takeWhile p = run := takeWhile_shorter h
  rwa [List.append_nil] at hshorter

theorem many?_none {p : Char → Bool} (h : many? p (text ++ back) = none) :
    many? p text = none := by
  rcases text with _ | ⟨c, text⟩
  · rfl
  · cases hc : p c <;> simp [many?, hc] at h ⊢

theorem many?_alone {p : Char → Bool} {run : List Char}
    (h : many? p (run ++ back) = some run) : many? p run = some run := by
  obtain ⟨hne, hrun⟩ := many?_eq_some h
  rw [many?, takeWhile_alone hrun.symm]
  split
  · contradiction
  · rfl

theorem word?_none {first rest : Char → Bool} (h : word? first rest (text ++ back) = none) :
    word? first rest text = none := by
  rcases text with _ | ⟨c, text⟩
  · rfl
  · cases hc : first c <;> simp [word?, hc] at h ⊢

theorem word?_shorter {first rest : Char → Bool} {word front : List Char}
    (h : word? first rest (word ++ (front ++ back)) = some word) :
    word? first rest (word ++ front) = some word := by
  obtain ⟨c, run, htext, hword, hc⟩ := word?_eq_some h
  obtain ⟨d, word, rfl⟩ := List.exists_cons_of_ne_nil (hword ▸ List.cons_ne_nil c _)
  obtain ⟨rfl, rfl⟩ := List.cons.inj htext
  obtain ⟨-, hrun⟩ := List.cons.inj hword
  simp [word?, hc, takeWhile_shorter hrun.symm]

theorem word?_alone {first rest : Char → Bool} {word : List Char}
    (h : word? first rest (word ++ back) = some word) : word? first rest word = some word := by
  have hshorter : word? first rest (word ++ []) = some word := word?_shorter h
  rwa [List.append_nil] at hshorter

theorem stringBody?_none {escapes : Char → Bool} (h : stringBody? escapes (text ++ back) = none) :
    stringBody? escapes text = none := by
  by_contra hsome
  obtain ⟨body, hbody⟩ := Option.ne_none_iff_exists'.mp hsome
  obtain ⟨rest, rfl⟩ := front_stringBody? hbody
  have hclosed := stringBody?_closed hbody (rest ++ back)
  simp [hclosed] at h

theorem charOpening?_none (h : charOpening? (text ++ back) = none) : charOpening? text = none := by
  by_contra hsome
  obtain ⟨⟨kind, opening, rest⟩, hopening⟩ := Option.ne_none_iff_exists'.mp hsome
  obtain ⟨rfl, ⟨-, rfl⟩ | ⟨-, rfl⟩⟩ := charOpening?_eq_some hopening <;> simp [charOpening?] at h

theorem charOpening?_append {opening rest : List Char} {kind : TokenKind}
    (h : charOpening? text = some (kind, opening, rest)) (rest' : List Char) :
    charOpening? (opening ++ rest') = some (kind, opening, rest') := by
  obtain ⟨-, ⟨rfl, rfl⟩ | ⟨rfl, rfl⟩⟩ := charOpening?_eq_some h <;> rfl

theorem charBody?_closed {body : List Char} (h : charBody? text = some body) (back : List Char) :
    charBody? (body ++ '\'' :: back) = some body :=
  charBody?_append (charBody?_mem h) back

theorem readsAlone_whitespace : Rule.ReadsAlone whitespace where
  none text back h := by
    rw [whitespace, Option.map_eq_none_iff] at h ⊢
    exact many?_none h
  some lexeme back h := by
    obtain ⟨run, hrun, rfl⟩ := Option.map_eq_some_iff.mp h
    exact Option.map_eq_some_iff.mpr ⟨run, many?_alone hrun, rfl⟩

theorem restOfLine_alone {line : List Char}
    (h : line.takeWhile (· != '\n') ++ back = line) :
    (line.takeWhile (· != '\n')).takeWhile (· != '\n') = line.takeWhile (· != '\n') :=
  takeWhile_alone (by rw [h])

theorem readsAlone_comment : Rule.ReadsAlone comment where
  none text back h := by
    unfold comment at h ⊢
    split <;> simp_all
  some lexeme back h := by
    unfold comment at h
    split at h
    · rename_i line htext
      obtain rfl := Option.some.inj h
      have hback : line.takeWhile (· != '\n') ++ back = line := by simpa [plain] using htext
      have hline := restOfLine_alone hback
      simp [comment, plain, hline]
    · contradiction

theorem readsAlone_string : Rule.ReadsAlone string where
  none text back h := by
    unfold string at h ⊢
    split
    · rw [Option.map_eq_none_iff]
      exact stringBody?_none (by simpa using h)
    · rfl
  some lexeme back h := by
    unfold string at h
    split at h
    · obtain ⟨body, hbody, rfl⟩ := Option.map_eq_some_iff.mp h
      simp [string, stringBody?_closed hbody []]
    · contradiction

theorem readsAlone_stringWithInvalidEscape : Rule.ReadsAlone stringWithInvalidEscape where
  none text back h := by
    unfold stringWithInvalidEscape at h ⊢
    split
    · rw [Option.map_eq_none_iff]
      exact stringBody?_none (by simpa using h)
    · rfl
  some lexeme back h := by
    unfold stringWithInvalidEscape at h
    split at h
    · obtain ⟨body, hbody, rfl⟩ := Option.map_eq_some_iff.mp h
      simp [stringWithInvalidEscape, plain, stringBody?_closed hbody []]
    · contradiction

theorem readsAlone_unterminatedString : Rule.ReadsAlone unterminatedString where
  none text back h := by
    unfold unterminatedString at h ⊢
    split <;> simp_all
  some lexeme back h := by
    unfold unterminatedString at h
    split at h
    · rename_i line htext
      obtain rfl := Option.some.inj h
      have hback : line.takeWhile (· != '\n') ++ back = line := by simpa [plain] using htext
      have hline := restOfLine_alone hback
      simp [unterminatedString, plain, hline]
    · contradiction

theorem char_append {lexeme : Lexeme} (h : char text = some lexeme) (back : List Char) :
    char (text ++ back) = some lexeme := by
  simp only [char, Option.bind_eq_bind, Option.bind_eq_some_iff, Option.pure_def,
    Option.some.injEq] at h
  obtain ⟨⟨kind, opening, rest⟩, hopening, body, hbody, rfl⟩ := h
  obtain ⟨behind, rfl⟩ := front_charBody? hbody
  obtain ⟨rfl, -⟩ := charOpening?_eq_some hopening
  have hopening' := charOpening?_append hopening (body ++ '\'' :: (behind ++ back))
  simp [char, hopening', charBody?_closed hbody (behind ++ back)]

theorem readsAlone_char : Rule.ReadsAlone char where
  none text back h := by
    by_contra hsome
    obtain ⟨lexeme, hlexeme⟩ := Option.ne_none_iff_exists'.mp hsome
    rw [char_append hlexeme back] at h
    contradiction
  some lexeme back h := by
    simp only [char, Option.bind_eq_bind, Option.bind_eq_some_iff, Option.pure_def,
      Option.some.injEq] at h
    obtain ⟨⟨kind, opening, rest⟩, hopening, body, hbody, rfl⟩ := h
    simp [char, charOpening?_append hopening, charBody?_closed hbody []]

theorem readsAlone_charWithInvalidEscape : Rule.ReadsAlone charWithInvalidEscape where
  none text back h := by
    by_contra hsome
    obtain ⟨lexeme, hlexeme⟩ := Option.ne_none_iff_exists'.mp hsome
    simp only [charWithInvalidEscape, Option.bind_eq_bind, Option.bind_eq_some_iff] at hlexeme
    obtain ⟨⟨kind, opening, rest⟩, hopening, hrest⟩ := hlexeme
    obtain ⟨rfl, -⟩ := charOpening?_eq_some hopening
    split at hrest
    · rename_i c behind htext
      obtain rfl : rest = '\\' :: c :: '\'' :: behind := htext
      split at hrest
      · contradiction
      · rename_i hc
        rw [beq_iff_eq] at hc
        simp [charWithInvalidEscape, charOpening?_append hopening, hc] at h
    · contradiction
  some lexeme back h := by
    simp only [charWithInvalidEscape, Option.bind_eq_bind, Option.bind_eq_some_iff] at h
    obtain ⟨⟨kind, opening, rest⟩, hopening, hrest⟩ := h
    split at hrest
    · split at hrest
      · contradiction
      · rename_i hc
        rw [beq_iff_eq] at hc
        obtain rfl := Option.some.inj hrest
        simp [charWithInvalidEscape, plain, charOpening?_append hopening, hc]
    · contradiction

theorem readsAlone_unterminatedChar : Rule.ReadsAlone unterminatedChar where
  none text back h := by
    rw [unterminatedChar, Option.map_eq_none_iff] at h ⊢
    exact charOpening?_none h
  some lexeme back h := by
    obtain ⟨⟨kind, opening, rest⟩, hopening, rfl⟩ := Option.map_eq_some_iff.mp h
    have halone := charOpening?_append hopening []
    rw [List.append_nil] at halone
    exact Option.map_eq_some_iff.mpr ⟨_, halone, rfl⟩

theorem readsAlone_directive : Rule.ReadsAlone directive where
  none text back h := by
    unfold directive at h ⊢
    split
    · rw [Option.map_eq_none_iff]
      exact word?_none (by simpa using h)
    · rfl
  some lexeme back h := by
    unfold directive at h
    split at h
    · rename_i text htext
      obtain ⟨name, hname, rfl⟩ := Option.map_eq_some_iff.mp h
      obtain rfl : name ++ back = text := by simpa [plain] using htext
      simp [directive, plain, word?_alone hname]
    · contradiction

theorem readsAlone_radixNumber (letter : Char) (digit : Char → Bool) :
    Rule.ReadsAlone (radixNumber letter digit) where
  none text back h := by
    unfold radixNumber at h ⊢
    split
    · split
      · rename_i hletter
        rw [Option.map_eq_none_iff]
        exact many?_none (by simpa [hletter] using h)
      · rfl
    · rfl
  some lexeme back h := by
    unfold radixNumber at h
    split at h
    · rename_i c text htext
      split at h
      · obtain ⟨digits, hdigits, rfl⟩ := Option.map_eq_some_iff.mp h
        obtain ⟨-, rfl⟩ : letter = c ∧ digits ++ back = text := by simpa [plain] using htext
        simp [radixNumber, plain, many?_alone hdigits]
      · contradiction
    · contradiction

theorem find?_isPrefixOf_alone {names : List (List Char)} {name : List Char}
    (h : names.find? (·.isPrefixOf (name ++ back)) = some name) :
    names.find? (·.isPrefixOf name) = some name := by
  obtain ⟨-, before, after, rfl, hbefore⟩ := List.find?_eq_some_iff_append.mp h
  refine List.find?_eq_some_iff_append.mpr ⟨by simp, before, after, rfl, fun other hother => ?_⟩
  have hother := hbefore other hother
  simp only [Bool.not_eq_true', ← Bool.not_eq_true, List.isPrefixOf_iff_prefix] at hother ⊢
  exact fun hbegins => hother (hbegins.trans (List.prefix_append _ _))

theorem find?_numberSuffixes_nil : numberSuffixes.find? (·.isPrefixOf []) = none := by
  decide

theorem readsAlone_decimalNumber : Rule.ReadsAlone decimalNumber where
  none text back h := by
    simp only [decimalNumber, Option.bind_eq_bind, Option.bind_eq_none_iff, Option.pure_def,
      reduceCtorEq, imp_false] at h ⊢
    exact fun digits => by simp [word?_none (Option.eq_none_iff_forall_ne_some.mpr h)]
  some lexeme back h := by
    simp only [decimalNumber, Option.bind_eq_bind, Option.bind_eq_some_iff, Option.pure_def,
      Option.some.injEq] at h
    obtain ⟨digits, hdigits, hlexeme⟩ := h
    generalize hsuffix : (numberSuffixes.find? fun name => name.isPrefixOf
      ((lexeme.text ++ back).drop digits.length)).getD [] = suffix at hlexeme
    obtain rfl := hlexeme
    simp only [plain, List.append_assoc, List.drop_left] at hdigits hsuffix
    have hfound : (numberSuffixes.find? (·.isPrefixOf suffix)).getD [] = suffix := by
      rcases hname : numberSuffixes.find? (·.isPrefixOf (suffix ++ back)) with _ | name
      · obtain rfl : [] = suffix := by simpa [hname] using hsuffix
        rw [find?_numberSuffixes_nil, Option.getD_none]
      · obtain rfl : name = suffix := by simpa [hname] using hsuffix
        rw [find?_isPrefixOf_alone hname, Option.getD_some]
    simp [decimalNumber, plain, word?_shorter hdigits, hfound]

theorem Rule.ReadsAlone.orElse {first next : Rule} (hfirst : first.ReadsAlone)
    (hnext : next.ReadsAlone) : Rule.ReadsAlone fun text => first text <|> next text where
  none text back h := by
    simp only [Option.orElse_eq_orElse, Option.orElse_eq_or, Option.or_eq_none_iff] at h ⊢
    exact ⟨hfirst.none text back h.1, hnext.none text back h.2⟩
  some lexeme back h := by
    simp only [Option.orElse_eq_orElse, Option.orElse_eq_or, Option.or_eq_some_iff] at h ⊢
    rcases h with h | ⟨hnone, h⟩
    · exact .inl (hfirst.some lexeme back h)
    · exact .inr ⟨hfirst.none _ back hnone, hnext.some lexeme back h⟩

theorem readsAlone_number : Rule.ReadsAlone number :=
  (readsAlone_radixNumber _ _).orElse ((readsAlone_radixNumber _ _).orElse
    ((readsAlone_radixNumber _ _).orElse readsAlone_decimalNumber))

theorem readsAlone_lowerWord : Rule.ReadsAlone lowerWord where
  none text back h := by
    rw [lowerWord, Option.map_eq_none_iff] at h ⊢
    exact word?_none h
  some lexeme back h := by
    obtain ⟨name, hname, rfl⟩ := Option.map_eq_some_iff.mp h
    exact Option.map_eq_some_iff.mpr ⟨name, word?_alone hname, rfl⟩

theorem readsAlone_upperWord : Rule.ReadsAlone upperWord where
  none text back h := by
    rw [upperWord, Option.map_eq_none_iff] at h ⊢
    exact word?_none h
  some lexeme back h := by
    obtain ⟨name, hname, rfl⟩ := Option.map_eq_some_iff.mp h
    exact Option.map_eq_some_iff.mpr ⟨name, word?_alone hname, rfl⟩

theorem readsAlone_operator (kind : TokenKind) : Rule.ReadsAlone (operator kind) where
  none text back h := by
    simp only [operator, ite_eq_right_iff, reduceCtorEq, imp_false,
      List.isPrefixOf_iff_prefix] at h ⊢
    exact fun hbegins => h (hbegins.trans (List.prefix_append _ _))
  some lexeme back h := by
    simp only [operator, Option.ite_none_right_eq_some] at h
    obtain rfl := Option.some.inj h.2
    simp [operator, plain]

theorem readsAlone_of_mem_rules : ∀ rule ∈ rules, Rule.ReadsAlone rule := by
  intro rule hrule
  rcases List.mem_append.mp hrule with hrule | hrule
  · simp only [List.mem_cons, List.not_mem_nil, or_false] at hrule
    rcases hrule with rfl | rfl | rfl | rfl | rfl | rfl | rfl | rfl | rfl | rfl | rfl | rfl
    · exact readsAlone_whitespace
    · exact readsAlone_comment
    · exact readsAlone_string
    · exact readsAlone_stringWithInvalidEscape
    · exact readsAlone_unterminatedString
    · exact readsAlone_char
    · exact readsAlone_charWithInvalidEscape
    · exact readsAlone_unterminatedChar
    · exact readsAlone_directive
    · exact readsAlone_number
    · exact readsAlone_lowerWord
    · exact readsAlone_upperWord
  · obtain ⟨kind, -, rfl⟩ := List.mem_map.mp hrule
    exact readsAlone_operator kind

theorem findSome?_alone {rules : List Rule} (hrules : ∀ rule ∈ rules, Rule.ReadsAlone rule)
    {lexeme : Lexeme} (h : rules.findSome? (· (lexeme.text ++ back)) = some lexeme) :
    rules.findSome? (· lexeme.text) = some lexeme := by
  obtain ⟨before, rule, after, rfl, hrule, hbefore⟩ := List.findSome?_eq_some_iff.mp h
  refine List.findSome?_eq_some_iff.mpr ⟨before, rule, after, rfl, ?_, fun other hother => ?_⟩
  · exact (hrules rule (by simp)).some lexeme back hrule
  · exact (hrules other (by simp [hother])).none _ back (hbefore other hother)

theorem findSome?_of_kind {c : Char} {rest : List Char}
    (h : (first c rest).kind ≠ .error .unrecognisedCharacter) :
    rules.findSome? (· (c :: rest)) = some (first c rest) := by
  rcases hfound : rules.findSome? (· (c :: rest)) with _ | lexeme
  · simp [first, hfound, plain] at h
  · simp [first, hfound]

theorem first_alone {c d : Char} {rest tail : List Char}
    (h : (first c rest).kind ≠ .error .unrecognisedCharacter)
    (htext : c :: rest = (first c rest).text ++ back) (halone : (first c rest).text = d :: tail) :
    first d tail = first c rest := by
  have hfound := findSome?_of_kind h
  rw [htext] at hfound
  have hself := findSome?_alone readsAlone_of_mem_rules hfound
  rw [halone] at hself
  simp only [first, hself, Option.getD_some]

end Alone

end Lexeme

end LosslessSyntax
