import LosslessSyntax.Proofs.Lexing.Literals
import LosslessSyntax.Diagnostic
/-!
The escape that a diagnostic names. The lexer and the diagnostics read a literal by the same pairs,
so a literal that the lexer takes for malformed has an unsupported escape, and the first one is
named.
-/
namespace LosslessSyntax

open Text (units Unsupported supportedEscapes)

namespace Text

variable {c : Char} {text : List Char}

theorem not_unsupported_singleton (c : Char) : ¬Unsupported [c] := by
  rintro ⟨d, -, hd⟩
  simp at hd

theorem firstInvalidEscape_of_units {before behind : List (List Char)}
    (h : units text = before ++ ['\\', c] :: behind) (hc : c ∉ supportedEscapes)
    (hbefore : ∀ unit ∈ before, ¬Unsupported unit) : firstInvalidEscape text = ['\\', c] := by
  fun_induction firstInvalidEscape text generalizing before with
  | case1 => simp [units] at h
  | case2 d =>
    rcases List.singleton_eq_append_iff.mp h with ⟨-, hunit⟩ | ⟨-, hunit⟩ <;> simp at hunit
  | case3 d rest hsupported ih =>
    rw [units_pair] at h
    rcases before with _ | ⟨unit, before⟩
    · obtain rfl : d = c := by simpa using (List.cons.inj h).1
      exact absurd (isSome_escaped?_iff.mp hsupported) hc
    · exact ih (List.cons.inj h).2 (List.forall_mem_cons.mp hbefore).2
  | case4 d rest hunsupported =>
    rw [units_pair] at h
    rcases before with _ | ⟨unit, before⟩
    · exact (List.cons.inj h).1
    · obtain ⟨rfl, -⟩ := List.cons.inj h
      refine absurd ⟨d, ?_, rfl⟩ (hbefore _ List.mem_cons_self)
      rwa [← isSome_escaped?_iff]
  | case5 b d rest hb ih =>
    rw [units_cons hb] at h
    rcases before with _ | ⟨unit, before⟩
    · simp at h
    · exact ih (List.cons.inj h).2 (List.forall_mem_cons.mp hbefore).2

theorem exists_first_unsupported {items : List (List Char)} (h : ∃ unit ∈ items, Unsupported unit) :
    ∃ before c behind, items = before ++ ['\\', c] :: behind ∧ c ∉ supportedEscapes ∧
      ∀ unit ∈ before, ¬Unsupported unit := by
  induction items with
  | nil => simp at h
  | cons unit items ih =>
    by_cases hunit : Unsupported unit
    · obtain ⟨c, hc, rfl⟩ := hunit
      exact ⟨[], c, items, rfl, hc, by simp⟩
    · obtain ⟨before, c, behind, rfl, hc, hbefore⟩ := ih (by simpa [hunit] using h)
      exact ⟨unit :: before, c, behind, rfl, hc, List.forall_mem_cons.mpr ⟨hunit, hbefore⟩⟩

end Text

namespace Lexeme

variable {lexeme : Lexeme} {escapes : Char → Bool} {opening : List Char} {quote c : Char}
  {items : List (List Char)} {rest : List Char}

theorem IsQuoted.units_text (h : lexeme.IsQuoted escapes opening quote items) :
    units lexeme.text = opening.map ([·]) ++ items ++ [[quote]] := by
  have hbody : units (items.flatten ++ [quote]) = items ++ [[quote]] :=
    units_flatten_append h.items [quote]
  obtain ⟨kind, hkind⟩ := h.quotes
  rw [h.text, List.append_assoc, List.append_assoc, ← hbody]
  unfold TokenKind.delimiters? at hkind
  split at hkind
  case h_4 => contradiction
  all_goals
    obtain ⟨rfl, -⟩ := Prod.mk.inj (Option.some.inj hkind)
    simp [Text.units_cons]

theorem IsQuoted.supported (h : lexeme.IsQuoted isEscape opening quote items) :
    ∀ unit ∈ units lexeme.text, ¬Unsupported unit := by
  rw [h.units_text]
  intro unit hunit
  simp only [List.mem_append, List.mem_map, List.mem_singleton] at hunit
  rcases hunit with (⟨c, -, rfl⟩ | hunit) | rfl
  · exact Text.not_unsupported_singleton c
  · rintro ⟨c, hc, rfl⟩
    rcases mem_quotedTexts.mp (h.items _ hunit) with ⟨d, hd, hescape⟩ | ⟨d, hd, -⟩
    · obtain rfl : c = d := by simpa using hd
      exact hc (isEscape_iff.mp hescape)
    · simp at hd
  · exact Text.not_unsupported_singleton quote

theorem rule_eq_of_invalidEscape {pattern : Pattern} (hpattern : pattern ∈ patterns)
    (hgives : .error .invalidEscape ∈ pattern.kinds) :
    pattern.rule = stringWithInvalidEscape ∨ pattern.rule = charWithInvalidEscape := by
  refine rule_eq_of_gives (p := (· = .error .invalidEscape)) ?_ (by decide) hpattern hgives rfl
  simp only [formPatterns, List.forall_mem_cons]
  and_intros
  all_goals first
    | exact .inl rfl
    | exact .inr (.inl rfl)
    | exact .inr (.inr (by decide))
    | simp

theorem isQuoted_stringWithInvalidEscape
    (h : stringWithInvalidEscape (c :: rest) = some (first c rest)) :
    ∃ items, (first c rest).IsQuoted (· != '\n') ['"'] '"' items ∧
      ∃ unit ∈ items, Unsupported unit := by
  unfold stringWithInvalidEscape at h
  split at h
  · rename_i text htext
    obtain ⟨rfl, rfl⟩ := List.cons.inj htext
    obtain ⟨inner, hinner, hfirst⟩ := Option.map_eq_some_iff.mp h
    obtain ⟨items, hclosed, hitems, rfl⟩ := stringBody?_eq_some_iff.mp hinner
    refine ⟨items, ⟨⟨.string, rfl⟩, by rw [← hfirst]; rfl, hitems⟩, ?_⟩
    by_contra hsupported
    rw [first_of_supported hclosed fun unit hunit hbad => hsupported ⟨unit, hunit, hbad⟩] at hfirst
    simp [plain] at hfirst
  · contradiction

theorem isQuoted_charWithInvalidEscape
    (h : charWithInvalidEscape (c :: rest) = some (first c rest)) :
    ∃ opening items, (first c rest).IsQuoted (· != '\n') opening '\'' items ∧
      ∃ unit ∈ items, Unsupported unit := by
  obtain ⟨⟨kind, opening, behind⟩, hopening, hread⟩ := Option.bind_eq_some_iff.mp h
  dsimp only at hread
  split at hread
  · rename_i d back
    obtain ⟨hbreak, hfirst⟩ := Option.ite_none_left_eq_some.mp hread
    replace hfirst := Option.some.inj hfirst
    have hunsupported : d ∉ supportedEscapes := by
      intro hsupported
      have hbody : ['\\', d] ∈ quotedTexts isEscape '\'' :=
        mem_quotedTexts.mpr (.inl ⟨d, rfl, isEscape_iff.mpr hsupported⟩)
      have hkind := delimiters?_of_charOpening hopening
      rw [show first c rest = _ from first_char hopening hbody] at hfirst
      obtain rfl : .error .invalidEscape = kind := congrArg Lexeme.kind hfirst
      simp [TokenKind.delimiters?] at hkind
    refine ⟨opening, [['\\', d]], ⟨⟨kind, delimiters?_of_charOpening hopening⟩, ?_, ?_⟩,
      _, List.mem_singleton_self _, d, hunsupported, rfl⟩
    · rw [← hfirst]
      simp [plain]
    · simpa [mem_quotedTexts] using hbreak
  · contradiction

theorem exists_isQuoted_invalidEscape (h : (first c rest).kind = .error .invalidEscape) :
    ∃ opening quote items, (first c rest).IsQuoted (· != '\n') opening quote items ∧
      ∃ unit ∈ items, Unsupported unit := by
  have hrecognised : (first c rest).kind ≠ .error .unrecognisedCharacter := by simp [h]
  have hfound := findSome?_of_kind hrecognised
  rw [← map_rule_patterns, List.findSome?_map] at hfound
  obtain ⟨pattern, hpattern, hread⟩ := List.exists_of_findSome?_eq_some hfound
  have hgives : .error .invalidEscape ∈ pattern.kinds := h ▸ pattern.gives _ _ hread
  rcases rule_eq_of_invalidEscape hpattern hgives with hrule | hrule
  · rw [Function.comp_apply, hrule] at hread
    obtain ⟨items, hquoted, hunsupported⟩ := isQuoted_stringWithInvalidEscape hread
    exact ⟨_, _, items, hquoted, hunsupported⟩
  · rw [Function.comp_apply, hrule] at hread
    obtain ⟨opening, items, hquoted, hunsupported⟩ := isQuoted_charWithInvalidEscape hread
    exact ⟨opening, _, items, hquoted, hunsupported⟩

end Lexeme

/-- The diagnostic of a token with an invalid escape names the first unsupported escape of its text,
and no literal that is well-formed has one. -/
theorem invalidEscape_named {source : String} {token : Token} (hmem : token ∈ tokenize source) :
    (token.kind = .error .invalidEscape →
      ∃ text before c behind, token.ReadFrom source text ∧
        units text = before ++ ['\\', c] :: behind ∧ c ∉ supportedEscapes ∧
        (∀ unit ∈ before, ¬Unsupported unit) ∧
        Diagnostic.ofLexError .invalidEscape token =
          ⟨.invalidEscape (String.ofList ['\\', c]), token.span⟩) ∧
    ((token.kind = .string ∨ token.kind = .char ∨ token.kind = .byteChar) →
      ∃ text, token.ReadFrom source text ∧ ∀ unit ∈ units text, ¬Unsupported unit) := by
  constructor
  · intro hkind
    obtain ⟨c, rest, offset, rfl, hread⟩ := exists_readFrom hmem (by simp [hkind])
    obtain ⟨opening, quote, items, hquoted, hunsupported⟩ :=
      Lexeme.exists_isQuoted_invalidEscape hkind
    have hfirst : ∃ unit ∈ units (Lexeme.first c rest).text, Unsupported unit := by
      obtain ⟨unit, hunit, hbad⟩ := hunsupported
      exact ⟨unit, by simp [hquoted.units_text, hunit], hbad⟩
    obtain ⟨before, d, behind, hunits, hd, hbefore⟩ := Text.exists_first_unsupported hfirst
    refine ⟨_, before, d, behind, hread, hunits, hd, hbefore, ?_⟩
    have hvalue : (Lexeme.first c rest).value = (Lexeme.first c rest).text := by
      have hdecodes := Lexeme.decodes_first c rest
      simpa only [Lexeme.Decodes, TokenKind.Decodes, TokenKind.delimiters?,
        show (Lexeme.first c rest).kind = _ from hkind] using hdecodes
    simp only [Diagnostic.ofLexError, Lexeme.token, String.toList_ofList, hvalue,
      Text.firstInvalidEscape_of_units hunits hd hbefore]
  · intro hkind
    have hdelimiters : ∃ opening closing, token.kind.delimiters? = some (opening, closing) := by
      rcases hkind with hkind | hkind | hkind <;> exact ⟨_, _, by rw [hkind]; rfl⟩
    obtain ⟨opening, closing, hdelimiters⟩ := hdelimiters
    obtain ⟨c, rest, offset, rfl, hread⟩ :=
      exists_readFrom hmem (by rcases hkind with hkind | hkind | hkind <;> simp [hkind])
    obtain ⟨quote, items, -, hquoted, -⟩ := Lexeme.exists_isQuoted_first hdelimiters
    exact ⟨_, hread, hquoted.supported⟩

/-- An escaped backslash and a supported escape come before the one that is named. -/
theorem invalidEscape_named_string :
    ⟨.error .invalidEscape, "\"\\\\\\n\\q\\z\"", .ofOffsets 1 11⟩ ∈
      tokenize "(\"\\\\\\n\\q\\z\"" ∧
    ∃ text before c behind,
      Token.ReadFrom ⟨.error .invalidEscape, "\"\\\\\\n\\q\\z\"", .ofOffsets 1 11⟩
        "(\"\\\\\\n\\q\\z\"" text ∧
      units text = before ++ ['\\', c] :: behind ∧ c ∉ supportedEscapes ∧
      (∀ unit ∈ before, ¬Unsupported unit) ∧
      Diagnostic.ofLexError .invalidEscape
          ⟨.error .invalidEscape, "\"\\\\\\n\\q\\z\"", .ofOffsets 1 11⟩ =
        ⟨.invalidEscape (String.ofList ['\\', c]), .ofOffsets 1 11⟩ := by
  have hmem : ⟨.error .invalidEscape, "\"\\\\\\n\\q\\z\"", .ofOffsets 1 11⟩ ∈
      tokenize "(\"\\\\\\n\\q\\z\"" := by decide
  exact ⟨hmem, (invalidEscape_named hmem).1 rfl⟩

end LosslessSyntax
