import LosslessSyntax.Proofs.Lexing.Languages
import LosslessSyntax.Proofs.Lexing.Seams
/-!
The rules in their order, each with the language that it reads. Of two rules the later one seldom
has a text that begins with the same character, and where it has one, that text is no longer. So the
first rule that applies reads the longest text of all.
-/
namespace LosslessSyntax

namespace Lexeme

section Characters

variable {c : Char}

theorem le_iff_toNat_le (c d : Char) : c ≤ d ↔ c.toNat ≤ d.toNat :=
  Char.le_def.trans UInt32.le_iff_toNat_le

theorem isDigit_iff : isDigit c ↔ 48 ≤ c.toNat ∧ c.toNat ≤ 57 := by
  simp only [isDigit, Bool.and_eq_true, decide_eq_true_eq, le_iff_toNat_le]
  rfl

theorem isLower_iff : isLower c ↔ 97 ≤ c.toNat ∧ c.toNat ≤ 122 := by
  simp only [isLower, Bool.and_eq_true, decide_eq_true_eq, le_iff_toNat_le]
  rfl

theorem isUpper_iff : isUpper c ↔ 65 ≤ c.toNat ∧ c.toNat ≤ 90 := by
  simp only [isUpper, Bool.and_eq_true, decide_eq_true_eq, le_iff_toNat_le]
  rfl

theorem isBlank_of_isWordPart (h : isWordPart c) : Text.isBlank c = false := by
  have hbounds : 48 ≤ c.toNat ∧ c.toNat ≤ 122 := by
    simp only [isWordPart, Bool.or_eq_true, isLower_iff, isUpper_iff, isDigit_iff,
      beq_iff_eq] at h
    rcases h with ((h | h) | h) | rfl
    · omega
    · omega
    · omega
    · decide
  rw [Bool.eq_false_iff]
  intro hblank
  simp only [Text.isBlank, Bool.or_eq_true, Bool.and_eq_true, decide_eq_true_eq, beq_iff_eq]
    at hblank
  omega

inductive Lead where
  | blank
  | digit
  | lower
  | upper
  | quote
  | apostrophe
  | hash
  | mark
deriving DecidableEq

def lead (c : Char) : Lead :=
  if Text.isBlank c then .blank
  else if isDigit c then .digit
  else if isLower c || c == '_' then .lower
  else if isUpper c then .upper
  else if c == '"' then .quote
  else if c == '\'' then .apostrophe
  else if c == '#' then .hash
  else .mark

theorem lead_of_isBlank (h : Text.isBlank c) : lead c = .blank := by
  simp [lead, h]

theorem lead_of_isDigit (h : isDigit c) : lead c = .digit := by
  have hblank : Text.isBlank c = false := isBlank_of_isWordPart (by simp [isWordPart, h])
  simp [lead, hblank, h]

theorem lead_of_isLower (h : isLower c || c == '_') : lead c = .lower := by
  have hblank : Text.isBlank c = false := by
    refine isBlank_of_isWordPart ?_
    rcases Bool.or_eq_true_iff.mp h with h | h <;> simp [isWordPart, h]
  have hdigit : isDigit c = false := by
    rw [Bool.eq_false_iff, ne_eq, isDigit_iff]
    rcases Bool.or_eq_true_iff.mp h with h | h
    · rw [isLower_iff] at h
      omega
    · obtain rfl := eq_of_beq h
      decide
  simp [lead, hblank, hdigit, h]

theorem lead_of_isUpper (h : isUpper c) : lead c = .upper := by
  have hblank : Text.isBlank c = false := isBlank_of_isWordPart (by simp [isWordPart, h])
  have hbounds := isUpper_iff.mp h
  have hdigit : isDigit c = false := by
    rw [Bool.eq_false_iff, ne_eq, isDigit_iff]
    omega
  have hlower : isLower c = false := by
    rw [Bool.eq_false_iff, ne_eq, isLower_iff]
    omega
  have hunderscore : c ≠ '_' := by
    rintro rfl
    exact absurd h (by decide)
  simp [lead, hblank, hdigit, hlower, hunderscore, h]

end Characters

def Rule.Gives (rule : Rule) (kinds : List TokenKind) : Prop :=
  ∀ text lexeme, rule text = some lexeme → lexeme.kind ∈ kinds

/-- A rule with the language that it reads from, how the texts of the language begin and what kinds
they have. -/
structure Pattern where
  rule : Rule
  language : Language Char
  leads : List Lead
  kinds : List TokenKind
  reads : rule.ReadsLongest language
  starts : ∀ word ∈ language, ∃ c tail, word = c :: tail ∧ lead c ∈ leads
  gives : rule.Gives kinds

theorem Pattern.outranks (pattern other : Pattern)
    (h : ∀ lead ∈ pattern.leads, lead ∉ other.leads) :
    pattern.rule.Outranks other.language := by
  intro text lexeme hread hproper word hword hfront
  obtain ⟨hmem, hbegins, -⟩ := pattern.reads.some text lexeme hread hproper
  obtain ⟨c, tail, htext, hc⟩ := pattern.starts _ hmem
  obtain ⟨d, tail', rfl, hd⟩ := other.starts word hword
  obtain ⟨back, rfl⟩ := hfront
  rw [htext] at hbegins
  obtain ⟨rfl, -⟩ := List.cons_prefix_cons.mp hbegins
  exact absurd hd (h _ hc)

theorem mem_sum {patterns : List Pattern} {word : List Char} :
    word ∈ (patterns.map (·.language)).sum ↔ ∃ pattern ∈ patterns, word ∈ pattern.language := by
  induction patterns with
  | nil => simp
  | cons pattern patterns ih =>
    simp [Language.mem_add, ih]

/-- The first pattern that applies reads the longest text of all, if each one outranks those behind
it. -/
theorem readsLongest_findSome? {patterns : List Pattern}
    (h : patterns.Pairwise fun pattern later => pattern.rule.Outranks later.language) :
    Rule.ReadsLongest (fun text => patterns.findSome? (·.rule text))
      (patterns.map (·.language)).sum := by
  induction patterns with
  | nil => exact ⟨by simp, fun _ _ _ hword => hword.elim⟩
  | cons pattern patterns ih =>
    obtain ⟨hpattern, hpatterns⟩ := List.pairwise_cons.mp h
    have hranks : pattern.rule.Outranks (patterns.map (·.language)).sum := by
      intro text lexeme hread hproper word hword hfront
      obtain ⟨later, hlater, hword⟩ := mem_sum.mp hword
      exact hpattern later hlater text lexeme hread hproper word hword hfront
    have hboth := pattern.reads.orElse (ih hpatterns) hranks
    have hrule : (fun text => (pattern :: patterns).findSome? (·.rule text)) =
        fun text => pattern.rule text <|> patterns.findSome? (·.rule text) := by
      funext text
      rw [List.findSome?_cons]
      cases pattern.rule text <;> rfl
    rw [List.map_cons, List.sum_cons, hrule]
    exact hboth

section Gives

variable {kinds : List TokenKind}

theorem gives_map {α : Type} {found : List Char → Option α} {make : α → Lexeme}
    (h : ∀ a, (make a).kind ∈ kinds) : Rule.Gives (fun text => (found text).map make) kinds := by
  intro text lexeme hread
  obtain ⟨a, -, rfl⟩ := Option.map_eq_some_iff.mp hread
  exact h a

theorem Rule.Gives.orElse {first next : Rule} (hfirst : first.Gives kinds)
    (hnext : next.Gives kinds) : Rule.Gives (fun text => first text <|> next text) kinds := by
  intro text lexeme h
  simp only [Option.orElse_eq_orElse, Option.orElse_eq_or, Option.or_eq_some_iff] at h
  rcases h with h | ⟨-, h⟩
  · exact hfirst text lexeme h
  · exact hnext text lexeme h

theorem gives_string : Rule.Gives string [.string] := by
  intro text lexeme h
  unfold string at h
  split at h
  · exact gives_map (by simp) _ lexeme h
  · contradiction

theorem gives_stringWithInvalidEscape :
    Rule.Gives stringWithInvalidEscape [.error .invalidEscape] := by
  intro text lexeme h
  unfold stringWithInvalidEscape at h
  split at h
  · exact gives_map (by simp [plain]) _ lexeme h
  · contradiction

theorem gives_unterminatedString :
    Rule.Gives unterminatedString [.error .unterminatedString] := by
  intro text lexeme h
  unfold unterminatedString at h
  split at h
  · obtain rfl := Option.some.inj h
    exact List.mem_singleton_self _
  · contradiction

theorem gives_char : Rule.Gives char [.char, .byteChar] := by
  intro text lexeme h
  simp only [char, Option.bind_eq_bind, Option.bind_eq_some_iff, Option.pure_def,
    Option.some.injEq, Prod.exists] at h
  obtain ⟨kind, opening, rest, hopening, body, -, rfl⟩ := h
  obtain ⟨-, ⟨rfl, -⟩ | ⟨rfl, -⟩⟩ := charOpening?_eq_some hopening <;> simp

theorem gives_charWithInvalidEscape :
    Rule.Gives charWithInvalidEscape [.error .invalidEscape] := by
  intro text lexeme h
  obtain ⟨⟨kind, opening, rest⟩, -, h⟩ := Option.bind_eq_some_iff.mp h
  dsimp only at h
  split at h
  · obtain ⟨-, h⟩ := Option.ite_none_left_eq_some.mp h
    obtain rfl := Option.some.inj h
    exact List.mem_singleton_self _
  · contradiction

theorem gives_directive : Rule.Gives directive [.directive] := by
  intro text lexeme h
  unfold directive at h
  split at h
  · exact gives_map (by simp [plain]) _ lexeme h
  · contradiction

theorem gives_radixNumber (letter : Char) (digit : Char → Bool) :
    Rule.Gives (radixNumber letter digit) [.number] := by
  intro text lexeme h
  unfold radixNumber at h
  split at h
  · split at h
    · exact gives_map (by simp [plain]) _ lexeme h
    · contradiction
  · contradiction

theorem gives_decimalNumber : Rule.Gives decimalNumber [.number] := by
  intro text lexeme h
  obtain ⟨digits, -, h⟩ := Option.bind_eq_some_iff.mp h
  obtain rfl := Option.some.inj h
  exact List.mem_singleton_self _

theorem gives_number : Rule.Gives number [.number] :=
  (gives_radixNumber _ _).orElse
    ((gives_radixNumber _ _).orElse ((gives_radixNumber _ _).orElse gives_decimalNumber))

theorem gives_lowerWord :
    Rule.Gives lowerWord (.identifier :: TokenKind.reservedWords.map Prod.snd) := by
  refine gives_map fun name => ?_
  rcases hkind : TokenKind.ofReserved? (String.ofList name) with _ | kind
  · simp [plain]
  · obtain ⟨front, back, hwords, -⟩ := List.lookup_eq_some_iff.mp hkind
    simp [plain, hwords]

end Gives

section Starts

variable {first rest : Char → Bool} {language : Language Char} {word : List Char}

theorem starts_words {c : Lead} (h : ∀ d, first d → lead d = c) (hword : word ∈ words first rest) :
    ∃ d tail, word = d :: tail ∧ lead d ∈ [c] := by
  obtain ⟨d, run, rfl, hd, -⟩ := mem_words.mp hword
  exact ⟨d, run, rfl, List.mem_singleton.mpr (h d hd)⟩

theorem starts_prepend {c : Char} {front : List Char}
    (hword : word ∈ ({c :: front} : Language Char) * language) :
    ∃ d tail, word = d :: tail ∧ lead d ∈ [lead c] := by
  obtain ⟨back, -, rfl⟩ := mem_singleton_mul.mp hword
  exact ⟨c, front ++ back, rfl, List.mem_singleton_self _⟩

theorem starts_char (hword : word ∈ charTexts) :
    ∃ d tail, word = d :: tail ∧ lead d ∈ [.apostrophe, .lower] := by
  obtain ⟨opening, hopening, body, -, rfl⟩ := mem_charTexts.mp hword
  simp only [List.mem_cons, List.not_mem_nil, or_false] at hopening
  rcases hopening with rfl | rfl
  · exact ⟨'\'', _, rfl, by decide⟩
  · exact ⟨'b', _, rfl, by decide⟩

theorem starts_number (hword : word ∈ numberTexts) :
    ∃ d tail, word = d :: tail ∧ lead d ∈ [.digit] := by
  rcases hword with hword | hword | hword | hword
  · exact starts_prepend hword
  · exact starts_prepend hword
  · exact starts_prepend hword
  · obtain ⟨digits, hdigits, suffix, -, rfl⟩ := Language.mem_mul.mp hword
    obtain ⟨d, run, rfl, hd⟩ := starts_words (fun _ => lead_of_isDigit) hdigits
    exact ⟨d, run ++ suffix, rfl, hd⟩

theorem starts_operator : ∀ kind ∈ operators, kind.text.toList.head?.map lead = some .mark := by
  decide

end Starts

namespace Pattern

def whitespace : Pattern :=
  ⟨Lexeme.whitespace, whitespaceTexts, [.blank], [.whitespace], readsLongest_whitespace,
    fun _ => starts_words fun _ => lead_of_isBlank, gives_map (by simp [plain])⟩

def comment : Pattern :=
  ⟨Lexeme.comment, commentTexts, [.mark], [.comment], readsLongest_comment,
    fun _ => starts_prepend, fun _ _ h => List.mem_singleton.mpr (kind_of_comment h)⟩

def string : Pattern :=
  ⟨Lexeme.string, stringTexts, [.quote], [.string], readsLongest_string, fun _ => starts_prepend,
    gives_string⟩

def char : Pattern :=
  ⟨Lexeme.char, charTexts, [.apostrophe, .lower], [.char, .byteChar], readsLongest_char,
    fun _ => starts_char, gives_char⟩

def directive : Pattern :=
  ⟨Lexeme.directive, directiveTexts, [.hash], [.directive], readsLongest_directive,
    fun _ => starts_prepend, gives_directive⟩

def number : Pattern :=
  ⟨Lexeme.number, numberTexts, [.digit], [.number], readsLongest_number, fun _ => starts_number,
    gives_number⟩

def lowerWord : Pattern :=
  ⟨Lexeme.lowerWord, lowerWordTexts, [.lower],
    .identifier :: TokenKind.reservedWords.map Prod.snd, readsLongest_lowerWord,
    fun _ => starts_words fun _ => lead_of_isLower, gives_lowerWord⟩

def upperWord : Pattern :=
  ⟨Lexeme.upperWord, upperWordTexts, [.upper], [.typeIdentifier], readsLongest_upperWord,
    fun _ => starts_words fun _ => lead_of_isUpper, gives_map (by simp [plain])⟩

def operator (kind : TokenKind) (h : kind ∈ operators) : Pattern where
  rule := Lexeme.operator kind
  language := {kind.text.toList}
  leads := [.mark]
  kinds := [kind]
  reads := readsLongest_operator h
  starts := by
    rintro _ rfl
    obtain ⟨d, hd, hlead⟩ := Option.map_eq_some_iff.mp (starts_operator kind h)
    obtain ⟨tail, htail⟩ := List.head?_eq_some_iff.mp hd
    exact ⟨d, tail, htail, List.mem_singleton.mpr hlead⟩
  gives text lexeme hread := by
    simp only [Lexeme.operator, Option.ite_none_right_eq_some] at hread
    obtain rfl := Option.some.inj hread.2
    exact List.mem_singleton_self kind

def malformed (rule : Rule) (reason : LexError) (h : rule.Gives [.error reason]) : Pattern where
  rule := rule
  language := 0
  leads := []
  kinds := [.error reason]
  reads := ⟨fun text lexeme hread hproper =>
    absurd (List.mem_singleton.mp (h text lexeme hread)) (hproper reason),
    fun _ _ _ hword => hword.elim⟩
  starts _ hword := hword.elim
  gives := h

end Pattern

/-- The patterns whose texts are no operators. -/
def formPatterns : List Pattern :=
  [.whitespace, .comment, .string,
    .malformed stringWithInvalidEscape .invalidEscape gives_stringWithInvalidEscape,
    .malformed unterminatedString .unterminatedString gives_unterminatedString, .char,
    .malformed charWithInvalidEscape .invalidEscape gives_charWithInvalidEscape,
    .malformed unterminatedChar .unterminatedChar (gives_map (by simp [plain])), .directive,
    .number, .lowerWord, .upperWord]

def patterns : List Pattern := formPatterns ++ operators.pmap Pattern.operator fun _ h => h

theorem map_rule_patterns : patterns.map (·.rule) = rules := by
  rw [patterns, List.map_append, List.map_pmap]
  simp only [Pattern.operator, List.pmap_eq_map]
  rfl

theorem sum_language_patterns : (patterns.map (·.language)).sum = properTexts := by
  have hoperators : ((operators.pmap Pattern.operator fun _ h => h).map (·.language)).sum =
      operatorTexts := by
    ext word
    rw [mem_sum]
    constructor
    · rintro ⟨_, hpattern, hword⟩
      obtain ⟨kind, hkind, rfl⟩ := List.mem_pmap.mp hpattern
      exact ⟨kind, hkind, hword⟩
    · rintro ⟨kind, hkind, hword⟩
      exact ⟨.operator kind hkind, List.mem_pmap.mpr ⟨kind, hkind, rfl⟩, hword⟩
  rw [patterns, List.map_append, List.sum_append, hoperators]
  simp [formPatterns, properTexts, Pattern.malformed, Pattern.whitespace, Pattern.comment,
    Pattern.string, Pattern.char, Pattern.directive, Pattern.number, Pattern.lowerWord,
    Pattern.upperWord, add_assoc]

theorem eq_of_charOpening {text word : List Char} {opened : TokenKind × List Char × List Char}
    (h : charOpening? text = some opened) (hword : word ∈ lowerWordTexts) (hfront : word <+: text) :
    word = ['b'] := by
  obtain ⟨c, run, rfl, hc, hrun⟩ := mem_words.mp hword
  obtain ⟨kind, opening, rest⟩ := opened
  obtain ⟨rfl, ⟨-, rfl⟩ | ⟨-, rfl⟩⟩ := charOpening?_eq_some h
  · obtain ⟨rfl, hrest⟩ := List.cons_prefix_cons.mp hfront
    cases run with
    | nil => rfl
    | cons d run =>
      obtain ⟨rfl, -⟩ := List.cons_prefix_cons.mp hrest
      exact absurd (hrun '\'' List.mem_cons_self) (by decide)
  · obtain ⟨rfl, -⟩ := List.cons_prefix_cons.mp hfront
    exact absurd hc (by decide)

theorem outranks_char_lowerWord : Rule.Outranks char lowerWordTexts := by
  intro text lexeme h _ word hword hfront
  obtain ⟨opened, hopening, -⟩ := Option.bind_eq_some_iff.mp h
  rw [eq_of_charOpening hopening hword hfront]
  exact List.length_pos_iff.mpr (reads_char text lexeme h).nonempty

theorem outranks_comment_operator {kind : TokenKind} (hkind : kind ∈ operators) :
    Rule.Outranks comment {kind.text.toList} := by
  have hspelling : ∀ kind ∈ operators, kind.text.toList.length ≤ 2 := by decide
  rintro text lexeme h - _ rfl -
  unfold comment at h
  split at h
  · obtain rfl := Option.some.inj h
    exact (hspelling kind hkind).trans (by simp [plain])
  · contradiction

theorem Pattern.outranks_mark (pattern : Pattern) (h : .mark ∉ pattern.leads) {kind : TokenKind}
    (hkind : kind ∈ operators) : pattern.rule.Outranks {kind.text.toList} := by
  refine pattern.outranks (.operator kind hkind) fun lead hlead hmark => h ?_
  rwa [← List.mem_singleton.mp hmark]

theorem outranks_operator {kind later : TokenKind}
    (h : ¬kind.text.toList <+: later.text.toList) :
    Rule.Outranks (operator kind) {later.text.toList} := by
  rintro text lexeme hread - _ rfl hfront
  simp only [operator, Option.ite_none_right_eq_some, List.isPrefixOf_iff_prefix] at hread
  obtain ⟨hspelling, hread⟩ := hread
  obtain rfl := Option.some.inj hread
  rcases List.prefix_or_prefix_of_prefix hspelling hfront with hle | hle
  · exact absurd hle h
  · exact hle.length_le

theorem pairwise_operators :
    operators.Pairwise fun kind later => ¬kind.text.toList <+: later.text.toList := by
  decide

theorem pairwise_outranks :
    patterns.Pairwise fun pattern later => pattern.rule.Outranks later.language := by
  refine List.pairwise_append.mpr ⟨?_, ?_, ?_⟩
  · -- Only the literal of a byte begins like a word.
    simp only [formPatterns, List.pairwise_cons, List.forall_mem_cons]
    and_intros
    all_goals first
      | exact outranks_char_lowerWord
      | exact Pattern.outranks _ _ (by decide)
      | simp
  · exact List.Pairwise.pmap pairwise_operators _ fun kind _ later _ => outranks_operator
  · -- Only a comment begins like an operator.
    intro pattern hpattern later hlater
    obtain ⟨kind, hkind, rfl⟩ := List.mem_pmap.mp hlater
    revert pattern
    simp only [formPatterns, List.forall_mem_cons]
    and_intros
    all_goals first
      | exact outranks_comment_operator hkind
      | exact Pattern.outranks_mark _ (by decide) hkind
      | simp

end Lexeme

end LosslessSyntax
