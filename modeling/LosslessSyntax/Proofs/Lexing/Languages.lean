import LosslessSyntax.Proofs.Lexing.Alone
/-!
The language of each rule that reads proper tokens, put together from characters by choice,
succession and repetition. Each rule reads the longest text of its language that stands at the front
of a source, and reads nothing only where there is none.
-/
namespace LosslessSyntax

namespace Lexeme

open scoped Computability

/-- A text of a language at the front of another text, where no longer one stands. -/
structure IsLongest (language : Language Char) (word text : List Char) : Prop where
  mem : word ∈ language
  front : word <+: text
  le : ∀ other ∈ language, other <+: text → other.length ≤ word.length

def words (first rest : Char → Bool) : Language Char := one first * (one rest)∗

def whitespaceTexts : Language Char := words Text.isBlank Text.isBlank

def commentTexts : Language Char := {['/', '/']} * (one (· != '\n'))∗

def stringTexts : Language Char := {['"']} * ((quotedTexts isEscape '"')∗ * {['"']})

def charTexts : Language Char := (1 + {['b']}) * ({['\'']} * (quotedTexts isEscape '\'' * {['\'']}))

def directiveTexts : Language Char := {['#']} * words isLower isWordPart

def radixTexts (letter : Char) (digit : Char → Bool) : Language Char :=
  {['0', letter]} * words (fun c => digit c || c == '_') fun c => digit c || c == '_'

def suffixTexts : Language Char := {name | name ∈ numberSuffixes}

def decimalTexts : Language Char :=
  words isDigit (fun c => isDigit c || c == '_') * (1 + suffixTexts)

def numberTexts : Language Char :=
  radixTexts 'x' isHexDigit + (radixTexts 'b' (fun c => c == '0' || c == '1') +
    (radixTexts 'o' (fun c => '0' ≤ c && c ≤ '7') + decimalTexts))

def lowerWordTexts : Language Char := words (fun c => isLower c || c == '_') isWordPart

def upperWordTexts : Language Char := words isUpper isWordPart

def operatorTexts : Language Char := {word | ∃ kind ∈ operators, word = kind.text.toList}

def properTexts : Language Char :=
  whitespaceTexts + commentTexts + stringTexts + charTexts + directiveTexts + numberTexts +
    lowerWordTexts + upperWordTexts + operatorTexts

def IsProper (lexeme : Lexeme) : Prop := ∀ reason, lexeme.kind ≠ .error reason

/-- A rule reads the longest text of a language or an error, and nothing only where the language has
no text. -/
structure Rule.ReadsLongest (rule : Rule) (language : Language Char) : Prop where
  some : ∀ text lexeme, rule text = some lexeme → lexeme.IsProper →
    IsLongest language lexeme.text text
  none : ∀ text, rule text = none → ∀ word ∈ language, ¬word <+: text

/-- Where a rule applies, no text of a language is longer than what the rule reads. -/
def Rule.Outranks (rule : Rule) (language : Language Char) : Prop :=
  ∀ text lexeme, rule text = some lexeme → lexeme.IsProper →
    ∀ word ∈ language, word <+: text → word.length ≤ lexeme.text.length

section Words

variable {language : Language Char} {first rest p : Char → Bool} {word text : List Char}

theorem mem_kstar_one : word ∈ (one p)∗ ↔ ∀ c ∈ word, p c := by
  rw [Language.mem_kstar]
  constructor
  · rintro ⟨pieces, rfl, hpieces⟩ c hc
    obtain ⟨piece, hpiece, hc⟩ := List.mem_flatten.mp hc
    obtain ⟨d, rfl, hd⟩ := hpieces piece hpiece
    rwa [List.mem_singleton.mp hc]
  · intro h
    refine ⟨word.map fun c => [c], (List.flatMap_singleton' word).symm, fun piece hpiece => ?_⟩
    obtain ⟨c, hc, rfl⟩ := List.mem_map.mp hpiece
    exact ⟨c, rfl, h c hc⟩

theorem mem_words :
    word ∈ words first rest ↔ ∃ c run, word = c :: run ∧ first c ∧ ∀ c ∈ run, rest c := by
  unfold words
  rw [Language.mem_mul]
  constructor
  · rintro ⟨_, ⟨c, rfl, hc⟩, run, hrun, rfl⟩
    exact ⟨c, run, rfl, hc, mem_kstar_one.mp hrun⟩
  · rintro ⟨c, run, rfl, hc, hrun⟩
    exact ⟨[c], ⟨c, rfl, hc⟩, run, mem_kstar_one.mpr hrun, rfl⟩

theorem length_le_takeWhile {run : List Char} (hrun : ∀ c ∈ run, p c) (hfront : run <+: text) :
    run.length ≤ (text.takeWhile p).length := by
  obtain ⟨back, rfl⟩ := hfront
  rw [List.takeWhile_append_of_pos hrun, List.length_append]
  exact Nat.le_add_right _ _

theorem isLongest_takeWhile (p : Char → Bool) (text : List Char) :
    IsLongest (one p)∗ (text.takeWhile p) text where
  mem := mem_kstar_one.mpr fun _ hc => List.mem_takeWhile_imp hc
  front := List.takeWhile_prefix p
  le _ hother hfront := length_le_takeWhile (mem_kstar_one.mp hother) hfront

theorem isLongest_word? (h : word? first rest text = some word) :
    IsLongest (words first rest) word text := by
  obtain ⟨c, back, rfl, rfl, hc⟩ := word?_eq_some h
  constructor
  case mem => exact mem_words.mpr ⟨c, _, rfl, hc, fun _ hd => List.mem_takeWhile_imp hd⟩
  case front => exact (front_word? h).2
  case le =>
    intro other hother hfront
    obtain ⟨d, run, rfl, -, hrun⟩ := mem_words.mp hother
    have hlength := length_le_takeWhile hrun (List.cons_prefix_cons.mp hfront).2
    simpa using hlength

theorem not_prefix_of_word? (h : word? first rest text = none) :
    ∀ word ∈ words first rest, ¬word <+: text := by
  rintro word hword ⟨back, rfl⟩
  obtain ⟨c, run, rfl, hc, -⟩ := mem_words.mp hword
  simp [word?, hc] at h

theorem many?_eq_word? (p : Char → Bool) (text : List Char) : many? p text = word? p p text := by
  rcases text with _ | ⟨c, text⟩
  · rfl
  · cases hc : p c <;> simp [many?, word?, hc]

theorem IsLongest.prepend (h : IsLongest language word text) (front : List Char) :
    IsLongest ({front} * language) (front ++ word) (front ++ text) where
  mem := mem_singleton_mul.mpr ⟨word, h.mem, rfl⟩
  front := (List.prefix_append_right_inj front).mpr h.front
  le other hother hfront := by
    obtain ⟨back, hback, rfl⟩ := mem_singleton_mul.mp hother
    rw [List.length_append, List.length_append]
    exact Nat.add_le_add_left (h.le back hback ((List.prefix_append_right_inj front).mp hfront)) _

theorem IsLongest.mul {other : Language Char} {next rest : List Char}
    (hword : IsLongest language word (word ++ rest)) (hnext : IsLongest other next rest)
    (hinner : ∀ run more, word = run ++ more → more ≠ [] → ∀ name ∈ other,
      name <+: more ++ rest → name = []) :
    IsLongest (language * other) (word ++ next) (word ++ rest) where
  mem := Language.append_mem_mul hword.mem hnext.mem
  front := (List.prefix_append_right_inj word).mpr hnext.front
  le := by
    rintro _ ⟨run, hrun, name, hname, rfl⟩ hfront
    have hrunFront := (List.prefix_append run name).trans hfront
    obtain ⟨more, rfl⟩ := List.prefix_of_prefix_length_le hrunFront
      (List.prefix_append word rest) (hword.le run hrun hrunFront)
    rw [List.append_assoc, List.prefix_append_right_inj] at hfront
    simp only [List.length_append]
    by_cases hmore : more = []
    · subst hmore
      have hle := hnext.le name hname hfront
      simpa using hle
    · rw [hinner run more rfl hmore name hname hfront, List.length_nil]
      omega

theorem not_prefix_prepend {front : List Char} (h : ∀ word ∈ language, ¬word <+: text) :
    ∀ word ∈ ({front} : Language Char) * language, ¬word <+: front ++ text := by
  intro word hword hfront
  obtain ⟨back, hback, rfl⟩ := mem_singleton_mul.mp hword
  exact h back hback ((List.prefix_append_right_inj front).mp hfront)

theorem not_prefix_of_not_front {front : List Char} (h : ¬front <+: text) :
    ∀ word ∈ ({front} : Language Char) * language, ¬word <+: text := by
  intro word hword hfront
  obtain ⟨back, -, rfl⟩ := mem_singleton_mul.mp hword
  exact h ((List.prefix_append front back).trans hfront)

end Words

section Rules

theorem readsLongest_map_word? {first rest : Char → Bool} {make : List Char → Lexeme}
    (h : ∀ name, (make name).text = name) :
    Rule.ReadsLongest (fun text => (word? first rest text).map make) (words first rest) where
  some text lexeme hread _ := by
    obtain ⟨name, hname, rfl⟩ := Option.map_eq_some_iff.mp hread
    rw [h name]
    exact isLongest_word? hname
  none text hread := not_prefix_of_word? (Option.map_eq_none_iff.mp hread)

theorem readsLongest_whitespace : Rule.ReadsLongest whitespace whitespaceTexts := by
  have hrule : whitespace =
      fun text => (word? Text.isBlank Text.isBlank text).map (plain .whitespace) := by
    funext text
    rw [whitespace, many?_eq_word?]
  rw [hrule]
  exact readsLongest_map_word? fun _ => rfl

theorem readsLongest_lowerWord : Rule.ReadsLongest lowerWord lowerWordTexts :=
  readsLongest_map_word? fun _ => rfl

theorem readsLongest_upperWord : Rule.ReadsLongest upperWord upperWordTexts :=
  readsLongest_map_word? fun _ => rfl

theorem readsLongest_comment : Rule.ReadsLongest comment commentTexts where
  some text lexeme h _ := by
    unfold comment at h
    split at h
    · rename_i line
      obtain rfl := Option.some.inj h
      exact (isLongest_takeWhile (· != '\n') line).prepend ['/', '/']
    · contradiction
  none text h := by
    refine not_prefix_of_not_front fun hfront => ?_
    obtain ⟨line, rfl⟩ := hfront
    contradiction

theorem readsLongest_directive : Rule.ReadsLongest directive directiveTexts where
  some text lexeme h _ := by
    unfold directive at h
    split at h
    · obtain ⟨name, hname, rfl⟩ := Option.map_eq_some_iff.mp h
      exact (isLongest_word? hname).prepend ['#']
    · contradiction
  none text h := by
    unfold directive at h
    split at h
    · rw [Option.map_eq_none_iff] at h
      exact not_prefix_prepend (not_prefix_of_word? h)
    · rename_i hhash
      refine not_prefix_of_not_front fun hfront => ?_
      obtain ⟨back, rfl⟩ := hfront
      exact hhash back rfl

theorem readsLongest_radixNumber (letter : Char) (digit : Char → Bool) :
    Rule.ReadsLongest (radixNumber letter digit) (radixTexts letter digit) where
  some text lexeme h _ := by
    unfold radixNumber at h
    split at h
    · rename_i c text
      split at h
      · rename_i hc
        obtain ⟨digits, hdigits, rfl⟩ := Option.map_eq_some_iff.mp h
        obtain rfl := eq_of_beq hc
        rw [many?_eq_word?] at hdigits
        exact (isLongest_word? hdigits).prepend ['0', c]
      · contradiction
    · contradiction
  none text h := by
    unfold radixNumber at h
    split at h
    · rename_i c text
      split at h
      · rename_i hc
        obtain rfl := eq_of_beq hc
        rw [Option.map_eq_none_iff, many?_eq_word?] at h
        exact not_prefix_prepend (not_prefix_of_word? h)
      · rename_i hc
        refine not_prefix_of_not_front fun hfront => hc (beq_iff_eq.mpr ?_)
        obtain ⟨back, hback⟩ := hfront
        exact (List.cons.inj (List.cons.inj hback).2).1.symm
    · rename_i hzero
      refine not_prefix_of_not_front fun hfront => ?_
      obtain ⟨back, rfl⟩ := hfront
      exact hzero letter back rfl

/-- Of two rules the second one reads where the first one does not. So the longest text is read, if
the second has none to read that is longer than what the first one reads. -/
theorem Rule.ReadsLongest.orElse {first next : Rule} {language other : Language Char}
    (hfirst : first.ReadsLongest language) (hnext : next.ReadsLongest other)
    (hranks : first.Outranks other) :
    Rule.ReadsLongest (fun text => first text <|> next text) (language + other) where
  some text lexeme h hproper := by
    simp only [Option.orElse_eq_orElse, Option.orElse_eq_or, Option.or_eq_some_iff] at h
    rcases h with h | ⟨hnone, h⟩
    · obtain ⟨hmem, hfront, hlongest⟩ := hfirst.some text lexeme h hproper
      refine ⟨.inl hmem, hfront, fun word hword hprefix => ?_⟩
      rcases hword with hword | hword
      · exact hlongest word hword hprefix
      · exact hranks text lexeme h hproper word hword hprefix
    · obtain ⟨hmem, hfront, hlongest⟩ := hnext.some text lexeme h hproper
      refine ⟨.inr hmem, hfront, fun word hword hprefix => ?_⟩
      rcases hword with hword | hword
      · exact absurd hprefix (hfirst.none text hnone word hword)
      · exact hlongest word hword hprefix
  none text h := by
    simp only [Option.orElse_eq_orElse, Option.orElse_eq_or, Option.or_eq_none_iff] at h
    rintro word (hword | hword)
    · exact hfirst.none text h.1 word hword
    · exact hnext.none text h.2 word hword

theorem numberSuffix_unique : ∀ name ∈ numberSuffixes, ∀ other ∈ numberSuffixes,
    name <+: other → name = other := by
  decide

theorem head_numberSuffix : ∀ name ∈ numberSuffixes,
    ∃ c ∈ name.head?, (isDigit c || c == '_') = false := by
  simp [numberSuffixes, isDigit]

theorem eq_nil_of_prefix_digits {name digits rest : List Char} (hname : name ∈ 1 + suffixTexts)
    (hne : digits ≠ []) (hdigits : ∀ c ∈ digits, isDigit c || c == '_')
    (hfront : name <+: digits ++ rest) : name = [] := by
  rcases hname with rfl | hname
  · rfl
  obtain ⟨c, hc, hdigit⟩ := head_numberSuffix name hname
  obtain ⟨name, rfl⟩ := List.head?_eq_some_iff.mp hc
  obtain ⟨d, digits, rfl⟩ := List.exists_cons_of_ne_nil hne
  obtain ⟨rfl, -⟩ := List.cons_prefix_cons.mp hfront
  exact absurd (hdigits c List.mem_cons_self) (by rw [hdigit]; exact Bool.false_ne_true)

theorem isLongest_suffix (text : List Char) :
    IsLongest (1 + suffixTexts)
      ((numberSuffixes.find? fun name => name.isPrefixOf text).getD []) text := by
  rcases hfound : numberSuffixes.find? fun name => name.isPrefixOf text with _ | name
  · rw [hfound, Option.getD_none]
    constructor
    case mem => exact .inl rfl
    case front => exact List.nil_prefix
    case le =>
      rintro other (rfl | hother) hfront
      · exact Nat.le_refl _
      · have hnone := List.find?_eq_none.mp hfound other hother
        exact absurd (List.isPrefixOf_iff_prefix.mpr hfront) hnone
  · have hname : name ∈ numberSuffixes := List.mem_of_find?_eq_some hfound
    have hprefix : name <+: text := by simpa using List.find?_some hfound
    rw [hfound, Option.getD_some]
    constructor
    case mem => exact .inr hname
    case front => exact hprefix
    case le =>
      rintro other (rfl | hother) hfront
      · exact Nat.zero_le _
      · rcases List.prefix_or_prefix_of_prefix hfront hprefix with hle | hle
        · exact hle.length_le
        · exact (congrArg List.length (numberSuffix_unique name hname other hother hle)).ge

theorem readsLongest_decimalNumber : Rule.ReadsLongest decimalNumber decimalTexts where
  some text lexeme h _ := by
    simp only [decimalNumber, Option.bind_eq_bind, Option.bind_eq_some_iff, Option.pure_def,
      Option.some.injEq] at h
    obtain ⟨digits, hdigits, rfl⟩ := h
    have hlongest := isLongest_word? hdigits
    obtain ⟨rest, rfl⟩ := hlongest.front
    rw [List.drop_left]
    refine hlongest.mul (isLongest_suffix rest) fun run more hmore hne name hname hfront => ?_
    have hall : ∀ c ∈ digits, isDigit c || c == '_' := by
      obtain ⟨c, tail, rfl, hc, htail⟩ := mem_words.mp hlongest.mem
      rw [List.forall_mem_cons, hc]
      exact ⟨rfl, htail⟩
    rw [hmore] at hall
    exact eq_nil_of_prefix_digits hname hne
      (fun c hc => hall c (List.mem_append_right run hc)) hfront
  none text h := by
    simp only [decimalNumber, Option.bind_eq_bind, Option.bind_eq_none_iff, Option.pure_def,
      reduceCtorEq, imp_false] at h
    rintro _ ⟨digits, hdigits, suffix, -, rfl⟩ hfront
    refine not_prefix_of_word? (Option.eq_none_iff_forall_ne_some.mpr h) digits hdigits ?_
    exact (List.prefix_append digits suffix).trans hfront

theorem radixNumber_eq_some {letter : Char} {digit : Char → Bool} {text : List Char}
    {lexeme : Lexeme} (h : radixNumber letter digit text = some lexeme) :
    ∃ rest, text = '0' :: letter :: rest ∧ 1 ≤ lexeme.text.length := by
  unfold radixNumber at h
  split at h
  · split at h
    · rename_i hc
      obtain ⟨digits, -, rfl⟩ := Option.map_eq_some_iff.mp h
      exact ⟨_, by rw [eq_of_beq hc], by simp [plain]⟩
    · contradiction
  · contradiction

theorem not_prefix_radixNumber {letter other : Char} {digit : Char → Bool} {text : List Char}
    {lexeme : Lexeme} (h : radixNumber letter digit text = some lexeme) (hne : letter ≠ other)
    (digit' : Char → Bool) : ∀ word ∈ radixTexts other digit', ¬word <+: text := by
  obtain ⟨rest, rfl, -⟩ := radixNumber_eq_some h
  refine (readsLongest_radixNumber other digit').none _ ?_
  simp [radixNumber, hne]

theorem decimal_le_radixNumber {letter : Char} {digit : Char → Bool} {text : List Char}
    {lexeme : Lexeme} (h : radixNumber letter digit text = some lexeme)
    (hletter : letter ∈ ['x', 'b', 'o']) :
    ∀ word ∈ decimalTexts, word <+: text → word.length ≤ lexeme.text.length := by
  obtain ⟨rest, rfl, hlength⟩ := radixNumber_eq_some h
  have hzero : decimalNumber ('0' :: letter :: rest) = some (plain .number ['0']) := by
    simp only [List.mem_cons, List.not_mem_nil, or_false] at hletter
    rcases hletter with rfl | rfl | rfl <;> rfl
  have hlongest := readsLongest_decimalNumber.some _ _ hzero (by simp [IsProper, plain])
  exact fun word hword hfront => (hlongest.le word hword hfront).trans hlength

theorem readsLongest_number : Rule.ReadsLongest number numberTexts := by
  refine (readsLongest_radixNumber _ _).orElse
    ((readsLongest_radixNumber _ _).orElse
      ((readsLongest_radixNumber _ _).orElse readsLongest_decimalNumber ?_) ?_) ?_
  · intro text lexeme h _
    exact decimal_le_radixNumber h (by decide)
  · rintro text lexeme h - word (hword | hword) hfront
    · exact absurd hfront (not_prefix_radixNumber h (by decide) _ word hword)
    · exact decimal_le_radixNumber h (by decide) word hword hfront
  · rintro text lexeme h - word (hword | hword | hword) hfront
    · exact absurd hfront (not_prefix_radixNumber h (by decide) _ word hword)
    · exact absurd hfront (not_prefix_radixNumber h (by decide) _ word hword)
    · exact decimal_le_radixNumber h (by decide) word hword hfront

theorem Rule.ReadsLongest.of_reads {rule : Rule} {language : Language Char} (hreads : rule.Reads)
    (hsome : ∀ text lexeme, rule text = Option.some lexeme → lexeme.text ∈ language)
    (hmem : ∀ word ∈ language, ∀ back, ∃ lexeme,
      rule (word ++ back) = Option.some lexeme ∧ lexeme.text = word) :
    rule.ReadsLongest language where
  some text lexeme h _ := by
    refine ⟨hsome text lexeme h, (hreads text lexeme h).front, ?_⟩
    rintro word hword ⟨back, rfl⟩
    obtain ⟨other, hother, rfl⟩ := hmem word hword back
    obtain rfl := Option.some.inj (h.symm.trans hother)
    exact Nat.le_refl _
  none text h := by
    rintro word hword ⟨back, rfl⟩
    obtain ⟨lexeme, hlexeme, -⟩ := hmem word hword back
    exact absurd (h.symm.trans hlexeme) (Option.some_ne_none lexeme).symm

theorem mem_stringTexts {word : List Char} :
    word ∈ stringTexts ↔ ∃ body ∈ (quotedTexts isEscape '"')∗, word = '"' :: body ++ ['"'] := by
  rw [stringTexts, mem_singleton_mul]
  constructor
  · rintro ⟨_, ⟨body, hbody, _, rfl, rfl⟩, rfl⟩
    exact ⟨body, hbody, rfl⟩
  · rintro ⟨body, hbody, rfl⟩
    exact ⟨body ++ ['"'], Language.append_mem_mul hbody rfl, rfl⟩

theorem readsLongest_string : Rule.ReadsLongest string stringTexts := by
  refine .of_reads reads_string (fun text lexeme h => ?_) fun word hword back => ?_
  · unfold string at h
    split at h
    · obtain ⟨body, hbody, rfl⟩ := Option.map_eq_some_iff.mp h
      exact mem_stringTexts.mpr ⟨body, stringBody?_mem hbody, rfl⟩
    · contradiction
  · obtain ⟨body, hbody, rfl⟩ := mem_stringTexts.mp hword
    refine ⟨⟨.string, _, Text.unescape body⟩, ?_, rfl⟩
    simp [string, stringBody?_append hbody back]

theorem mem_charTexts {word : List Char} :
    word ∈ charTexts ↔ ∃ opening ∈ [['\''], ['b', '\'']], ∃ body ∈ quotedTexts isEscape '\'',
      word = opening ++ body ++ ['\''] := by
  rw [charTexts, Language.mem_mul]
  constructor
  · rintro ⟨marker, hmarker, quoted, hquoted, rfl⟩
    obtain ⟨_, ⟨body, hbody, _, rfl, rfl⟩, rfl⟩ := mem_singleton_mul.mp hquoted
    refine ⟨marker ++ ['\''], ?_, body, hbody, by simp⟩
    rcases hmarker with rfl | rfl <;> simp
  · rintro ⟨opening, hopening, body, hbody, rfl⟩
    have hquoted : '\'' :: (body ++ ['\'']) ∈
        ({['\'']} : Language Char) * (quotedTexts isEscape '\'' * {['\'']}) :=
      mem_singleton_mul.mpr ⟨_, Language.append_mem_mul hbody rfl, rfl⟩
    simp only [List.mem_cons, List.not_mem_nil, or_false] at hopening
    rcases hopening with rfl | rfl
    · exact ⟨[], .inl rfl, _, hquoted, by simp⟩
    · exact ⟨['b'], .inr rfl, _, hquoted, by simp⟩

theorem readsLongest_char : Rule.ReadsLongest char charTexts := by
  refine .of_reads reads_char (fun text lexeme h => ?_) fun word hword back => ?_
  · simp only [char, Option.bind_eq_bind, Option.bind_eq_some_iff, Option.pure_def,
      Option.some.injEq, Prod.exists] at h
    obtain ⟨kind, opening, rest, hopening, body, hbody, rfl⟩ := h
    refine mem_charTexts.mpr ⟨opening, ?_, body, charBody?_mem hbody, rfl⟩
    obtain ⟨-, ⟨-, rfl⟩ | ⟨-, rfl⟩⟩ := charOpening?_eq_some hopening <;> simp
  · obtain ⟨opening, hopening, body, hbody, rfl⟩ := mem_charTexts.mp hword
    simp only [List.mem_cons, List.not_mem_nil, or_false] at hopening
    have hread := charBody?_append hbody back
    rcases hopening with rfl | rfl
    · exact ⟨⟨.char, _, Text.unescape body⟩, by simp [char, charOpening?, hread], rfl⟩
    · exact ⟨⟨.byteChar, _, Text.unescape body⟩, by simp [char, charOpening?, hread], rfl⟩

theorem readsLongest_operator {kind : TokenKind} (hkind : kind ∈ operators) :
    Rule.ReadsLongest (operator kind) {kind.text.toList} := by
  refine .of_reads (reads_operator hkind) (fun text lexeme h => ?_) fun word hword back => ?_
  · simp only [operator, Option.ite_none_right_eq_some] at h
    obtain rfl := Option.some.inj h.2
    rfl
  · obtain rfl := hword
    exact ⟨plain kind kind.text.toList, by simp [operator], rfl⟩

end Rules

end Lexeme

end LosslessSyntax
