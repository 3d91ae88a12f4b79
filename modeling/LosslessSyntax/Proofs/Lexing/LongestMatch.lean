import LosslessSyntax.Proofs.Lexing.Patterns
import LosslessSyntax.Proofs.Lexing.Tiling
/-!
Every token is the longest one that stands at its place: no pattern has a longer text there. An
operator is the longest one that is spelled there, and a token is a reserved word just when the
longest word there is reserved.
-/
namespace LosslessSyntax

open Text (byteLength)

namespace Lexeme

variable {c : Char} {rest : List Char} {kind : TokenKind}

theorem IsLongest.mono {language other : Language Char} {word text : List Char}
    (h : IsLongest other word text) (hle : ∀ word ∈ language, word ∈ other)
    (hmem : word ∈ language) : IsLongest language word text :=
  ⟨hmem, h.front, fun word hword => h.le word (hle word hword)⟩

theorem IsLongest.unique {language : Language Char} {word other text : List Char}
    (h : IsLongest language word text) (h' : IsLongest language other text) : word = other := by
  have hlength := Nat.le_antisymm (h'.le word h.mem h.front) (h.le other h'.mem h'.front)
  exact (List.prefix_of_prefix_length_le h.front h'.front hlength.le).eq_of_length hlength

theorem findSome?_patterns (h : (first c rest).IsProper) :
    patterns.findSome? (·.rule (c :: rest)) = some (first c rest) := by
  have hfound := findSome?_of_kind (h .unrecognisedCharacter)
  rwa [← map_rule_patterns, List.findSome?_map] at hfound

theorem isLongest_first (h : (first c rest).IsProper) :
    IsLongest properTexts (first c rest).text (c :: rest) := by
  have hlongest := (readsLongest_findSome? pairwise_outranks).some _ _ (findSome?_patterns h) h
  rwa [sum_language_patterns] at hlongest

theorem not_operator_of_mem_formPatterns :
    ∀ pattern ∈ formPatterns, ∀ kind ∈ operators, kind ∉ pattern.kinds := by
  decide

theorem isProper_of_operator (h : (first c rest).kind ∈ operators) :
    (first c rest).IsProper := by
  intro reason hreason
  rw [hreason] at h
  exact absurd h (by cases reason <;> decide)

theorem first_operator (h : (first c rest).kind ∈ operators) :
    first c rest = plain (first c rest).kind (first c rest).kind.text.toList := by
  obtain ⟨pattern, hpattern, hread⟩ :=
    List.exists_of_findSome?_eq_some (findSome?_patterns (isProper_of_operator h))
  rcases List.mem_append.mp hpattern with hpattern | hpattern
  · exact absurd (pattern.gives _ _ hread) (not_operator_of_mem_formPatterns pattern hpattern _ h)
  · obtain ⟨kind, hkind, rfl⟩ := List.mem_pmap.mp hpattern
    simp only [Pattern.operator, operator, Option.ite_none_right_eq_some] at hread
    rw [← Option.some.inj hread.2]
    rfl

theorem isLongest_operator (h : (first c rest).kind ∈ operators) :
    IsLongest operatorTexts (first c rest).kind.text.toList (c :: rest) := by
  have hlongest := isLongest_first (isProper_of_operator h)
  rw [first_operator h] at hlongest
  exact hlongest.mono (fun _ hword => .inr hword) ⟨_, h, rfl⟩

theorem eq_lowerWord_of_mem_patterns {pattern : Pattern} (hpattern : pattern ∈ patterns)
    (hkind : kind ∈ TokenKind.reservedWords.map Prod.snd) (hgives : kind ∈ pattern.kinds) :
    pattern = .lowerWord := by
  have hforms : ∀ form ∈ formPatterns, form = .lowerWord ∨
      ∀ kind ∈ TokenKind.reservedWords.map Prod.snd, kind ∉ form.kinds := by
    simp only [formPatterns, List.forall_mem_cons]
    and_intros
    all_goals first
      | exact .inl rfl
      | exact .inr (by decide)
      | simp
  rcases List.mem_append.mp hpattern with hpattern | hpattern
  · rcases hforms pattern hpattern with rfl | hother
    · rfl
    · exact absurd hgives (hother kind hkind)
  · obtain ⟨operator, hoperator, rfl⟩ := List.mem_pmap.mp hpattern
    obtain rfl := List.mem_singleton.mp hgives
    have hdisjoint : ∀ kind ∈ operators, kind ∉ TokenKind.reservedWords.map Prod.snd := by decide
    exact absurd hkind (hdisjoint kind hoperator)

theorem lowerWord_eq_first (hc : isLower c || c == '_')
    (hopening : charOpening? (c :: rest) = none) :
    lowerWord (c :: rest) = some (first c rest) := by
  have hlead := lead_of_isLower hc
  have hblank : Text.isBlank c = false := by
    rw [Bool.eq_false_iff]
    intro hblank
    simp [lead, hblank] at hlead
  have hdigit : isDigit c = false := by
    rw [Bool.eq_false_iff]
    intro hdigit
    simp [lead_of_isDigit hdigit] at hlead
  have hslash : c ≠ '/' := by rintro rfl; contradiction
  have hquote : c ≠ '"' := by rintro rfl; contradiction
  have hhash : c ≠ '#' := by rintro rfl; contradiction
  have hzero : c ≠ '0' := by rintro rfl; contradiction
  simp [first, rules, whitespace, many?, hblank, comment, hslash, string, stringWithInvalidEscape,
    unterminatedString, hquote, char, charWithInvalidEscape, unterminatedChar, hopening, directive,
    hhash, number, radixNumber, hzero, decimalNumber, word?, hdigit, lowerWord, hc]

theorem kind_first_iff (hkind : kind ∈ TokenKind.reservedWords.map Prod.snd) :
    (first c rest).kind = kind ↔ ∃ word, IsLongest lowerWordTexts word (c :: rest) ∧
      TokenKind.ofReserved? (String.ofList word) = some kind := by
  constructor
  · rintro rfl
    have hproper : (first c rest).IsProper := by
      intro reason hreason
      rw [hreason] at hkind
      exact absurd hkind (by cases reason <;> decide)
    obtain ⟨pattern, hpattern, hread⟩ :=
      List.exists_of_findSome?_eq_some (findSome?_patterns hproper)
    obtain rfl := eq_lowerWord_of_mem_patterns hpattern hkind (pattern.gives _ _ hread)
    have hlongest := readsLongest_lowerWord.some _ _ hread hproper
    obtain ⟨name, -, hname⟩ := Option.map_eq_some_iff.mp hread
    rw [← hname] at hlongest hkind ⊢
    refine ⟨name, hlongest, ?_⟩
    rcases hreserved : TokenKind.ofReserved? (String.ofList name) with _ | kind
    · simp only [plain, hreserved, Option.getD_none] at hkind
      exact absurd hkind (by decide)
    · simp only [plain, Option.getD_some]
  · rintro ⟨word, hlongest, hreserved⟩
    have hopening : charOpening? (c :: rest) = none := by
      by_contra hopening
      obtain ⟨opened, hopening⟩ := Option.ne_none_iff_exists'.mp hopening
      rw [eq_of_charOpening hopening hlongest.mem hlongest.front] at hreserved
      contradiction
    obtain ⟨d, run, hword, hd, -⟩ := mem_words.mp hlongest.mem
    have hfront := hlongest.front
    rw [hword] at hfront
    obtain ⟨rfl, -⟩ := List.cons_prefix_cons.mp hfront
    have hread := lowerWord_eq_first hd hopening
    obtain ⟨name, hname, hfirst⟩ := Option.map_eq_some_iff.mp hread
    rw [← hfirst, ← hlongest.unique (isLongest_word? hname)]
    simp only [plain, hreserved, Option.getD_some]

end Lexeme

open Lexeme (IsLongest)

/-- Whether a token is the longest one that stands at the front of a text. -/
structure Token.LongestAt (token : Token) (offset : Nat) (text : List Char) : Prop where
  proper : token.kind ≠ .eof → (∀ reason, token.kind ≠ .error reason) →
    ∃ word, token.span = .ofOffsets offset (offset + byteLength word) ∧
      token.kind.Decodes word token.value.toList ∧ IsLongest Lexeme.properTexts word text
  operator : token.kind ∈ Lexeme.operators → token.value = token.kind.text ∧
    IsLongest Lexeme.operatorTexts token.kind.text.toList text
  reserved : ∀ kind, kind ∈ TokenKind.keywords ∨ kind = .primitive →
    (token.kind = kind ↔ ∃ word, IsLongest Lexeme.lowerWordTexts word text ∧
      TokenKind.ofReserved? (String.ofList word) = some kind)

theorem mem_reservedWords : ∀ kind, kind ∈ TokenKind.keywords ∨ kind = .primitive →
    kind ∈ TokenKind.reservedWords.map Prod.snd := by
  decide

theorem longestAt_endOfFile (offset : Nat) : (Token.endOfFile offset).LongestAt offset [] where
  proper heof := absurd rfl heof
  operator h := absurd h (show .eof ∉ Lexeme.operators by decide)
  reserved kind hkind := by
    constructor
    · rintro rfl
      exact absurd hkind (show ¬(.eof ∈ TokenKind.keywords ∨ TokenKind.eof = .primitive) by decide)
    · rintro ⟨word, ⟨hmem, hfront, -⟩, -⟩
      obtain ⟨c, run, rfl, -⟩ := Lexeme.mem_words.mp hmem
      exact absurd (List.prefix_nil.mp hfront) (List.cons_ne_nil c run)

theorem longestAt_first (offset : Nat) (c : Char) (rest : List Char) :
    ((Lexeme.first c rest).token offset).LongestAt offset (c :: rest) where
  proper _ hproper := by
    refine ⟨(Lexeme.first c rest).text, rfl, ?_, Lexeme.isLongest_first hproper⟩
    rw [Lexeme.token, String.toList_ofList]
    exact Lexeme.decodes_first c rest
  operator h := by
    refine ⟨?_, Lexeme.isLongest_operator h⟩
    rw [Lexeme.token, Lexeme.first_operator h]
    exact String.ofList_toList
  reserved kind hkind := Lexeme.kind_first_iff (mem_reservedWords kind hkind)

namespace Lexes

variable {offset : Nat} {text : List Char}

theorem exists_split {before after : List Token} (h : Lexes offset text (before ++ after))
    (hne : after ≠ []) :
    ∃ front rest, text = front ++ rest ∧ Lexes (offset + byteLength front) rest after := by
  generalize hall : before ++ after = tokens at h
  induction h generalizing before with
  | finish offset =>
    rcases List.append_eq_singleton_iff.mp hall with ⟨-, rfl⟩ | ⟨-, hnil⟩
    · exact ⟨[], [], rfl, .finish offset⟩
    · exact absurd hnil hne
  | @lexeme offset c rest back lexeme tokens first text tail ih =>
    rcases before with _ | ⟨token, before⟩
    · obtain rfl : after = _ := hall
      exact ⟨[], c :: rest, rfl, .lexeme first text tail⟩
    · obtain ⟨front, behind, rfl, hafter⟩ := ih (List.cons.inj hall).2
      refine ⟨lexeme.text ++ front, behind, by rw [text, List.append_assoc], ?_⟩
      rwa [Text.byteLength_append, ← Nat.add_assoc]

theorem longestAt {token : Token} {after : List Token} (h : Lexes offset text (token :: after)) :
    token.LongestAt offset text := by
  cases h with
  | finish => exact longestAt_endOfFile offset
  | lexeme first =>
    subst first
    exact longestAt_first offset _ _

end Lexes

/-- The lexer reads each token at a place of the source, and there it is the longest one. -/
theorem tokenize_longestAt {source : String} {before after : List Token} {token : Token}
    (h : tokenize source = before ++ token :: after) :
    ∃ front rest, source.toList = front ++ rest ∧
      (Lexer.startingAt source (byteLength front)).tokens = token :: after ∧
      token.LongestAt (byteLength front) rest := by
  have hlexes := lexes_tokenize source
  rw [h] at hlexes
  obtain ⟨front, rest, hsource, hrest⟩ := hlexes.exists_split (List.cons_ne_nil token after)
  rw [Nat.zero_add] at hrest
  refine ⟨front, rest, hsource, ?_, hrest.longestAt⟩
  rw [Lexer.startingAt_append hsource]
  exact (lexes_tokens _ _).unique hrest

/-- The name of a type ends a decimal number only, so behind one of another base it is a token. -/
theorem tokenize_longestAt_number :
    tokenize "b'a'..0x1fu8" =
      [⟨.byteChar, "a", .ofOffsets 0 4⟩, ⟨.dotDot, "..", .ofOffsets 4 6⟩] ++
        ⟨.number, "0x1f", .ofOffsets 6 10⟩ ::
          [⟨.primitive, "u8", .ofOffsets 10 12⟩, .endOfFile 12] ∧
    ∃ front rest, "b'a'..0x1fu8".toList = front ++ rest ∧
      (Lexer.startingAt "b'a'..0x1fu8" (byteLength front)).tokens =
        ⟨.number, "0x1f", .ofOffsets 6 10⟩ ::
          [⟨.primitive, "u8", .ofOffsets 10 12⟩, .endOfFile 12] ∧
      Token.LongestAt ⟨.number, "0x1f", .ofOffsets 6 10⟩ (byteLength front) rest := by
  have htokens : tokenize "b'a'..0x1fu8" =
      [⟨.byteChar, "a", .ofOffsets 0 4⟩, ⟨.dotDot, "..", .ofOffsets 4 6⟩] ++
        ⟨.number, "0x1f", .ofOffsets 6 10⟩ ::
          [⟨.primitive, "u8", .ofOffsets 10 12⟩, .endOfFile 12] := by
    decide
  exact ⟨htokens, tokenize_longestAt htokens⟩

end LosslessSyntax
