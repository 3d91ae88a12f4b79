import LosslessSyntax.Proofs.Lexing.Alone
import LosslessSyntax.Proofs.Lexing.Relex
import Mathlib.Data.List.Forall2
/-!
Seams between lexemes: a space or a line break behind a proper lexeme ends it. So texts that are
joined by one have the tokens of both.
-/
namespace LosslessSyntax

open Text (byteLength)

namespace Lexeme

def IsSeam (c : Char) : Prop := c = ' ' ∨ c = '\n'

theorem IsSeam.isBlank {c : Char} (h : IsSeam c) : Text.isBlank c := by
  rcases h with rfl | rfl <;> decide

theorem IsSeam.byteLength {c : Char} (h : IsSeam c) : byteLength [c] = 1 := by
  rcases h with rfl | rfl <;> decide

/-- A rule that reads a text with the character and more behind it as it reads the text. -/
def Rule.StopsAt (stop : Char) (rule : Rule) : Prop :=
  ∀ text more, rule (text ++ stop :: more) = rule text

section Stops

variable {stop : Char}

theorem takeWhile_stops {p : Char → Bool} (hp : p stop = false) (text more : List Char) :
    (text ++ stop :: more).takeWhile p = text.takeWhile p := by
  induction text with
  | nil => simp [hp]
  | cons c text ih => cases hc : p c <;> simp [hc, ih]

theorem many?_stops {p : Char → Bool} (hp : p stop = false) (text more : List Char) :
    many? p (text ++ stop :: more) = many? p text := by
  rw [many?, takeWhile_stops hp, many?]

theorem word?_stops {first rest : Char → Bool} (hfirst : first stop = false)
    (hrest : rest stop = false) (text more : List Char) :
    word? first rest (text ++ stop :: more) = word? first rest text := by
  cases text with
  | nil => simp [word?, hfirst]
  | cons c text => simp only [List.cons_append, word?, takeWhile_stops hrest]

theorem isPrefixOf_stops {name : List Char} (hname : stop ∉ name) (text more : List Char) :
    name.isPrefixOf (text ++ stop :: more) = name.isPrefixOf text := by
  induction name generalizing text with
  | nil => simp
  | cons c name ih =>
    obtain ⟨hc, hname⟩ : stop ≠ c ∧ stop ∉ name := by simpa using hname
    cases text with
    | nil => simp [List.isPrefixOf_cons_cons, Ne.symm hc]
    | cons d text => simp only [List.cons_append, List.isPrefixOf_cons_cons, ih hname]

variable (hstop : IsSeam stop)

include hstop

theorem stopsAt_directive : Rule.StopsAt stop directive := by
  intro text more
  have hword : isLower stop = false ∧ isWordPart stop = false ∧ stop ≠ '#' := by
    rcases hstop with rfl | rfl <;> decide
  rcases text with _ | ⟨c, text⟩
  · simp [directive, hword]
  · by_cases hc : c = '#'
    · subst hc
      simp only [List.cons_append, directive, word?_stops hword.1 hword.2.1]
    · simp [directive, hc]

omit hstop in
theorem stopsAt_radixNumber {letter : Char} {digit : Char → Bool} (hzero : stop ≠ '0')
    (hletter : stop ≠ letter) (hdigit : (digit stop || stop == '_') = false) :
    Rule.StopsAt stop (radixNumber letter digit) := by
  intro text more
  rcases text with _ | ⟨c, _ | ⟨d, text⟩⟩
  · simp [radixNumber, hzero]
  · by_cases hc : c = '0' <;> simp [radixNumber, hc, hletter]
  · by_cases hc : c = '0'
    · subst hc
      simp only [List.cons_append, radixNumber,
        many?_stops (p := fun c => digit c || c == '_') hdigit]
    · simp [radixNumber, hc]

theorem stopsAt_decimalNumber : Rule.StopsAt stop decimalNumber := by
  intro text more
  have hdigit : isDigit stop = false ∧ (isDigit stop || stop == '_') = false := by
    rcases hstop with rfl | rfl <;> decide
  have hsuffix : ∀ name ∈ numberSuffixes, stop ∉ name := by
    rcases hstop with rfl | rfl <;> decide
  have hword : word? isDigit (fun c => isDigit c || c == '_') (text ++ stop :: more) =
      word? isDigit (fun c => isDigit c || c == '_') text :=
    word?_stops hdigit.1 hdigit.2 text more
  rcases hdigits : word? isDigit (fun c => isDigit c || c == '_') text with _ | digits
  · simp [decimalNumber, hword, hdigits]
  · obtain ⟨rest, rfl⟩ := (front_word? hdigits).2
    have hfound : numberSuffixes.find? (fun name => name.isPrefixOf (rest ++ stop :: more)) =
        numberSuffixes.find? fun name => name.isPrefixOf rest :=
      List.find?_congr fun name hname => isPrefixOf_stops (hsuffix name hname) rest more
    simp only [decimalNumber, hword, hdigits, Option.bind_eq_bind, Option.bind_some]
    rw [List.append_assoc, List.drop_left, List.drop_left, hfound]

omit hstop in
theorem Rule.StopsAt.orElse {first next : Rule} (hfirst : first.StopsAt stop)
    (hnext : next.StopsAt stop) : Rule.StopsAt stop fun text => first text <|> next text := by
  intro text more
  simp only [hfirst text more, hnext text more]

theorem stopsAt_number : Rule.StopsAt stop number := by
  have hradix {letter : Char} {digit : Char → Bool} (hletter : IsSeam letter → False)
      (hdigit : digit ' ' = false ∧ digit '\n' = false) :
      Rule.StopsAt stop (radixNumber letter digit) := by
    refine stopsAt_radixNumber ?_ ?_ ?_
    · rcases hstop with rfl | rfl <;> decide
    · rintro rfl
      exact hletter hstop
    · rcases hstop with rfl | rfl <;> simp [hdigit]
  exact (hradix (by simp [IsSeam]) (by decide)).orElse <|
    (hradix (by simp [IsSeam]) (by decide)).orElse <|
      (hradix (by simp [IsSeam]) (by decide)).orElse <| stopsAt_decimalNumber hstop

theorem stopsAt_lowerWord : Rule.StopsAt stop lowerWord := by
  intro text more
  have hstops : (isLower stop || stop == '_') = false ∧ isWordPart stop = false := by
    rcases hstop with rfl | rfl <;> decide
  have hword : word? (fun c => isLower c || c == '_') isWordPart (text ++ stop :: more) =
      word? (fun c => isLower c || c == '_') isWordPart text :=
    word?_stops hstops.1 hstops.2 text more
  simp only [lowerWord, hword]

theorem stopsAt_upperWord : Rule.StopsAt stop upperWord := by
  intro text more
  have hword : isUpper stop = false ∧ isWordPart stop = false := by
    rcases hstop with rfl | rfl <;> decide
  simp only [upperWord, word?_stops hword.1 hword.2]

theorem stopsAt_operator {kind : TokenKind} (hkind : kind ∈ operators) :
    Rule.StopsAt stop (operator kind) := by
  intro text more
  have hspelling : ∀ kind ∈ operators, stop ∉ kind.text.toList := by
    rcases hstop with rfl | rfl <;> decide
  simp only [operator, isPrefixOf_stops (hspelling kind hkind)]

theorem charOpening?_stops {text : List Char} (h : charOpening? text = none) (more : List Char) :
    charOpening? (text ++ stop :: more) = none := by
  have hquote : stop ≠ '\'' ∧ stop ≠ 'b' := by rcases hstop with rfl | rfl <;> decide
  rcases text with _ | ⟨c, _ | ⟨d, text⟩⟩ <;> simp only [List.nil_append, List.cons_append] <;>
    unfold charOpening? at h ⊢ <;> split <;> simp_all

theorem stopsAt_comment {text : List Char} (hcomment : comment text = none ∨ stop = '\n')
    (more : List Char) : comment (text ++ stop :: more) = comment text := by
  have hslash : stop ≠ '/' := by rcases hstop with rfl | rfl <;> decide
  rcases text with _ | ⟨c, _ | ⟨d, text⟩⟩
  · simp [comment, hslash]
  · simp [comment, hslash]
  · by_cases hslashes : c = '/' ∧ d = '/'
    · obtain ⟨rfl, rfl⟩ := hslashes
      rcases hcomment with hcomment | rfl
      · simp [comment] at hcomment
      · have hline : (text ++ '\n' :: more).takeWhile (· != '\n') = text.takeWhile (· != '\n') :=
          takeWhile_stops (by decide) text more
        simp only [List.cons_append, comment, hline]
    · unfold comment
      split <;> split <;> simp_all

omit hstop in
theorem first_charOpening {c : Char} {rest : List Char} (h : charOpening? (c :: rest) ≠ none) :
    char (c :: rest) = some (first c rest) ∨
      char (c :: rest) = none ∧ ∃ reason, (first c rest).kind = .error reason := by
  obtain ⟨⟨kind, opening, body⟩, hopening⟩ := Option.ne_none_iff_exists'.mp h
  have hc : c = '\'' ∨ c = 'b' := by
    obtain ⟨htext, ⟨-, rfl⟩ | ⟨-, rfl⟩⟩ := charOpening?_eq_some hopening <;> simp_all
  have hwhitespace : whitespace (c :: rest) = none := by
    have hblank : Text.isBlank c = false := by rcases hc with rfl | rfl <;> decide
    simp [whitespace, many?, hblank]
  have hcomment : comment (c :: rest) = none := by rcases hc with rfl | rfl <;> simp [comment]
  have hquote : c ≠ '"' := by rcases hc with rfl | rfl <;> decide
  rcases hchar : char (c :: rest) with _ | lexeme
  · refine .inr ⟨rfl, ?_⟩
    rcases hinvalid : charWithInvalidEscape (c :: rest) with _ | lexeme
    · refine ⟨.unterminatedChar, ?_⟩
      simp [first, rules, hwhitespace, hcomment, string, stringWithInvalidEscape,
        unterminatedString, hquote, hchar, hinvalid, unterminatedChar, hopening, plain]
    · refine ⟨.invalidEscape, ?_⟩
      have hfirst : first c rest = lexeme := by
        simp [first, rules, hwhitespace, hcomment, string, stringWithInvalidEscape,
          unterminatedString, hquote, hchar, hinvalid]
      rw [hfirst]
      simp only [charWithInvalidEscape, hopening, Option.bind_eq_bind, Option.bind_some] at hinvalid
      split at hinvalid
      · split at hinvalid
        · contradiction
        · obtain rfl := Option.some.inj hinvalid
          rfl
      · contradiction
  · left
    simp [first, rules, hwhitespace, hcomment, string, stringWithInvalidEscape,
      unterminatedString, hquote, hchar]

omit hstop in
theorem kind_of_comment {text : List Char} {lexeme : Lexeme} (h : comment text = some lexeme) :
    lexeme.kind = .comment := by
  unfold comment at h
  split at h
  · obtain rfl := Option.some.inj h
    rfl
  · contradiction

theorem stopsAt_of_mem_rules {c : Char} {rest : List Char} (hquote : c ≠ '"')
    (hopening : charOpening? (c :: rest) = none) (hblank : Text.isBlank c = false)
    (hcomment : comment (c :: rest) = none ∨ stop = '\n') (more : List Char) :
    ∀ rule ∈ rules, rule (c :: rest ++ stop :: more) = rule (c :: rest) := by
  have hopening' := charOpening?_stops hstop hopening more
  intro rule hrule
  rcases List.mem_append.mp hrule with hrule | hrule
  · simp only [List.mem_cons, List.not_mem_nil, or_false] at hrule
    rcases hrule with rfl | rfl | rfl | rfl | rfl | rfl | rfl | rfl | rfl | rfl | rfl | rfl
    · simp [whitespace, many?, hblank]
    · exact stopsAt_comment hstop hcomment more
    · simp [string, hquote]
    · simp [stringWithInvalidEscape, hquote]
    · simp [unterminatedString, hquote]
    · simp only [char, hopening, hopening']
    · simp only [charWithInvalidEscape, hopening, hopening']
    · simp only [unterminatedChar, hopening, hopening']
    · exact stopsAt_directive hstop _ _
    · exact stopsAt_number hstop _ _
    · exact stopsAt_lowerWord hstop _ _
    · exact stopsAt_upperWord hstop _ _
  · obtain ⟨kind, hkind, rfl⟩ := List.mem_map.mp hrule
    exact stopsAt_operator hstop hkind _ _

omit hstop in
theorem findSome?_congr {rules : List Rule} {text text' : List Char}
    (h : ∀ rule ∈ rules, rule text = rule text') :
    rules.findSome? (· text) = rules.findSome? (· text') := by
  induction rules with
  | nil => rfl
  | cons rule rules ih =>
    obtain ⟨hrule, hrules⟩ := List.forall_mem_cons.mp h
    simp only [List.findSome?_cons, hrule, ih hrules]

omit hstop in
theorem first_blank {c : Char} (hc : Text.isBlank c) (rest : List Char) :
    first c rest = plain .whitespace (c :: rest.takeWhile Text.isBlank) := by
  simp [first, rules, whitespace, many?, hc]

theorem first_stops {c : Char} {rest : List Char}
    (herror : ∀ reason, (first c rest).kind ≠ .error reason)
    (hc : Text.isBlank c = false) (hcomment : (first c rest).kind = .comment → stop = '\n')
    (more : List Char) : first c (rest ++ stop :: more) = first c rest := by
  by_cases hquote : c = '"'
  · subst hquote
    rcases first_quote rest with hstring | ⟨-, ⟨hopen | hopen, -⟩⟩
    · obtain ⟨back, hback⟩ := (begins_first '"' rest).front
      have hfront : byteLength (first '"' rest).text ≤ byteLength ('"' :: rest) := by
        rw [← hback, Text.byteLength_append]
        omega
      have hopen : string ('"' :: rest ++ []) = some (first '"' rest) := by simpa using hstring
      have hsame := string_settled ('"' :: rest) hopen hfront (stop :: more)
      rcases first_quote (rest ++ stop :: more) with hstring' | ⟨hnone, -⟩
      · exact Option.some.inj (hstring'.symm.trans hsame)
      · simp_all
    · exact absurd hopen (herror _)
    · exact absurd hopen (herror _)
  by_cases hopening : charOpening? (c :: rest) = none
  · have hstopped : comment (c :: rest) = none ∨ stop = '\n' := by
      rcases hfound : comment (c :: rest) with _ | lexeme
      · exact .inl rfl
      · have hfirst : first c rest = lexeme := by
          simp [first, rules, whitespace, many?, hc, hfound]
        exact .inr (hcomment (hfirst ▸ kind_of_comment hfound))
    have hsame := findSome?_congr
      (stopsAt_of_mem_rules hstop hquote hopening hc hstopped more)
    rw [List.cons_append] at hsame
    simp only [first, hsame]
  · rcases first_charOpening hopening with hchar | ⟨-, reason, hreason⟩
    · have hchar' := char_append hchar (stop :: more)
      have hopening' : charOpening? (c :: (rest ++ stop :: more)) ≠ none := fun hnone =>
        hopening (charOpening?_none (show charOpening? (c :: rest ++ _) = none from hnone))
      rcases first_charOpening hopening' with hsame | ⟨hnone, -⟩
      · exact Option.some.inj (hsame.symm.trans hchar')
      · simp_all
    · exact absurd hreason (herror _)

end Stops

/-- A lexeme that is read from its own text, and is neither malformed nor left out of the grammar.
-/
def StandsAlone (lexeme : Lexeme) : Prop :=
  (∃ c tail, lexeme.text = c :: tail ∧ first c tail = lexeme) ∧
    (∀ reason, lexeme.kind ≠ .error reason) ∧ lexeme.kind.isExtra = false

theorem StandsAlone.kind_token_ne_eof {lexeme : Lexeme} (h : lexeme.StandsAlone) (offset : Nat) :
    (lexeme.token offset).kind ≠ .eof := by
  obtain ⟨⟨c, tail, -, rfl⟩, -⟩ := h
  exact (begins_first c tail).kind_ne_eof

def IsAt (offset : Nat) (text : List Char) (lexeme : Lexeme) (token : Token) : Prop :=
  ∃ front back, text = front ++ lexeme.text ++ back ∧
    token = lexeme.token (offset + byteLength front)

theorem IsAt.append {offset : Nat} {text : List Char} {lexeme : Lexeme} {token : Token}
    (ahead : List Char) (h : lexeme.IsAt (offset + byteLength ahead) text token) :
    lexeme.IsAt offset (ahead ++ text) token := by
  obtain ⟨front, back, rfl, rfl⟩ := h
  refine ⟨ahead ++ front, back, by simp, ?_⟩
  rw [Text.byteLength_append, Nat.add_assoc]

end Lexeme

namespace Lexes

variable {offset : Nat} {text : List Char} {tokens : List Token}

theorem significantTokens_whitespace (offset : Nat) (run : List Char) (tokens : List Token) :
    significantTokens ((Lexeme.plain .whitespace run).token offset :: tokens) =
      significantTokens tokens := rfl

theorem exists_dropBlank (h : Lexes offset text tokens) :
    ∃ rest, Lexes (offset + byteLength (text.takeWhile Text.isBlank))
      (text.dropWhile Text.isBlank) rest ∧ significantTokens rest = significantTokens tokens := by
  cases h with
  | finish => exact ⟨_, .finish offset, rfl⟩
  | @lexeme _ c rest back lexeme tokens first text tail =>
    by_cases hc : Text.isBlank c
    · rw [Lexeme.first_blank hc] at first
      subst first
      have hback : back = (c :: rest).dropWhile Text.isBlank := by
        rw [← List.takeWhile_append_dropWhile (p := Text.isBlank) (l := c :: rest),
          List.takeWhile_cons_of_pos hc] at text
        exact (List.append_cancel_left text).symm
      rw [hback] at tail
      rw [List.takeWhile_cons_of_pos hc]
      exact ⟨tokens, tail, (significantTokens_whitespace _ _ _).symm⟩
    · refine ⟨_, ?_, rfl⟩
      rw [List.takeWhile_cons_of_neg hc, List.dropWhile_cons_of_neg hc]
      exact .lexeme first text tail

theorem exists_blank {run : List Char} (hne : run ≠ []) (hrun : ∀ c ∈ run, Text.isBlank c)
    (h : Lexes (offset + byteLength run) text tokens) :
    ∃ all, Lexes offset (run ++ text) all ∧ significantTokens all = significantTokens tokens := by
  obtain ⟨rest, hrest, hsignificant⟩ := h.exists_dropBlank
  obtain ⟨c, run, rfl⟩ := List.exists_cons_of_ne_nil hne
  obtain ⟨hc, hrun⟩ := List.forall_mem_cons.mp hrun
  have hfirst := Lexeme.first_blank hc (run ++ text)
  rw [List.takeWhile_append_of_pos hrun, ← List.cons_append] at hfirst
  rw [Nat.add_assoc, ← Text.byteLength_append] at hrest
  refine ⟨_, .lexeme hfirst ?_ hrest, (significantTokens_whitespace _ _ _).trans hsignificant⟩
  simp [Lexeme.plain, List.takeWhile_append_dropWhile]

theorem exists_join {stop : Char} {text' : List Char} {tokens' : List Token}
    (hstop : Lexeme.IsSeam stop) (h : Lexes offset text tokens)
    (hclean : ∀ token ∈ tokens, (∀ reason, token.kind ≠ .error reason) ∧
      (token.kind = .comment → stop = '\n'))
    (h' : Lexes (offset + byteLength text + 1) text' tokens') :
    ∃ all, Lexes offset (text ++ stop :: text') all ∧
      significantTokens all =
        (significantTokens tokens).filter (·.kind != .eof) ++ significantTokens tokens' := by
  induction h with
  | finish offset =>
    have hbehind : Lexes (offset + byteLength [stop]) text' tokens' := hstop.byteLength ▸ h'
    have hblank : ∀ c ∈ [stop], Text.isBlank c := List.forall_mem_singleton.mpr hstop.isBlank
    have hjoined := exists_blank (List.cons_ne_nil stop []) hblank hbehind
    exact hjoined
  | @lexeme offset c rest back lexeme tokens first text tail ih =>
    obtain ⟨⟨herror, hcomment⟩, hclean⟩ := List.forall_mem_cons.mp hclean
    rw [text, Text.byteLength_append, ← Nat.add_assoc] at h'
    obtain ⟨all, hall, hsignificant⟩ := ih hclean h'
    rw [significantTokens_cons]
    by_cases hc : Text.isBlank c
    · rw [Lexeme.first_blank hc] at first
      subst first
      have hblank : ∀ d ∈ c :: rest.takeWhile Text.isBlank, Text.isBlank d :=
        List.forall_mem_cons.mpr ⟨hc, fun d hd => List.mem_takeWhile_imp hd⟩
      rw [text, List.append_assoc, ← significantTokens_cons, significantTokens_whitespace,
        ← hsignificant]
      exact exists_blank (by simp [Lexeme.plain]) hblank hall
    · subst first
      have hfirst := Lexeme.first_stops hstop herror (by simpa using hc) hcomment text'
      refine ⟨_, .lexeme hfirst ?_ hall, ?_⟩
      · change c :: rest ++ stop :: text' = _
        rw [text, List.append_assoc]
      · have heof := (Lexeme.begins_first c rest).kind_ne_eof
        rw [significantTokens_cons, hsignificant]
        split
        · rfl
        · simp [Lexeme.token, heof]

theorem exists_lexemes (h : Lexes offset text tokens)
    (hclean : ∀ token ∈ significantTokens tokens, ∀ reason, token.kind ≠ .error reason) :
    ∃ lexemes : List Lexeme, (∀ lexeme ∈ lexemes, lexeme.StandsAlone) ∧
      List.Forall₂ (Lexeme.IsAt offset text) lexemes
        ((significantTokens tokens).filter (·.kind != .eof)) := by
  have hread : ∀ token ∈ (significantTokens tokens).filter (·.kind != .eof),
      ∃ lexeme : Lexeme, lexeme.StandsAlone ∧ lexeme.IsAt offset text token := by
    intro token hmem
    obtain ⟨hmem, hkind⟩ := List.mem_filter.mp hmem
    have herror := hclean token hmem
    obtain ⟨hmem, hextra⟩ := List.mem_filter.mp hmem
    obtain ⟨front, c, rest, back, rfl, htext, rfl⟩ :=
      h.exists_first_of_mem hmem (by simpa using hkind)
    obtain ⟨d, tail, halone⟩ := List.exists_cons_of_ne_nil (Lexeme.begins_first c rest).nonempty
    refine ⟨Lexeme.first c rest, ⟨⟨d, tail, halone, ?_⟩, herror, ?_⟩, front, back, ?_, rfl⟩
    · exact Lexeme.first_alone (herror _) htext halone
    · simpa [Lexeme.token] using hextra
    · rw [List.append_assoc, ← htext]
  generalize (significantTokens tokens).filter (·.kind != .eof) = proper at hread
  induction proper with
  | nil => exact ⟨[], by simp, .nil⟩
  | cons token proper ih =>
    obtain ⟨⟨lexeme, halone, hat⟩, hproper⟩ := List.forall_mem_cons.mp hread
    obtain ⟨lexemes, hlexemes, hall⟩ := ih hproper
    exact ⟨lexeme :: lexemes, List.forall_mem_cons.mpr ⟨halone, hlexemes⟩, .cons hat hall⟩

section

variable {lexeme : Lexeme} (hlexeme : lexeme.StandsAlone)

include hlexeme

theorem of_standsAlone (offset : Nat) :
    Lexes offset lexeme.text
      [lexeme.token offset, .endOfFile (offset + byteLength lexeme.text)] := by
  obtain ⟨⟨c, tail, htext, hfirst⟩, -, -⟩ := hlexeme
  conv => arg 2; rw [htext]
  exact .lexeme hfirst (by simp [htext]) (.finish _)

theorem proper_of_standsAlone (offset stop : Nat) :
    (significantTokens [lexeme.token offset, .endOfFile stop]).filter (·.kind != .eof) =
      [lexeme.token offset] := by
  rw [significantTokens_cons, if_neg (by simpa [Lexeme.token] using hlexeme.2.2),
    List.filter_cons_of_pos (by simpa using hlexeme.kind_token_ne_eof offset)]
  rfl

theorem exists_space (h : Lexes (offset + byteLength lexeme.text + 1) text tokens) :
    ∃ all, Lexes offset (lexeme.text ++ ' ' :: text) all ∧
      (significantTokens all).filter (·.kind != .eof) =
        lexeme.token offset :: (significantTokens tokens).filter (·.kind != .eof) := by
  have hclean : ∀ token ∈ [lexeme.token offset, .endOfFile (offset + byteLength lexeme.text)],
      (∀ reason, token.kind ≠ .error reason) ∧ (token.kind = .comment → ' ' = '\n') := by
    obtain ⟨-, herror, hextra⟩ := hlexeme
    simp only [List.forall_mem_cons, List.not_mem_nil, false_implies, implies_true, and_true]
    refine ⟨⟨herror, fun hcomment => ?_⟩, by simp [Token.endOfFile], by simp [Token.endOfFile]⟩
    rw [show lexeme.kind = .comment from hcomment] at hextra
    contradiction
  obtain ⟨all, hall, hjoined⟩ := (of_standsAlone hlexeme offset).exists_join (.inl rfl) hclean h
  refine ⟨all, hall, ?_⟩
  rw [hjoined, proper_of_standsAlone hlexeme, List.singleton_append,
    List.filter_cons_of_pos (by simpa using hlexeme.kind_token_ne_eof offset)]

end

theorem exists_spaced (offset : Nat) {lexemes : List Lexeme}
    (h : ∀ lexeme ∈ lexemes, lexeme.StandsAlone) :
    ∃ tokens, Lexes offset ([' '].intercalate (lexemes.map (·.text))) tokens ∧
      List.Forall₂ (Lexeme.IsAt offset ([' '].intercalate (lexemes.map (·.text)))) lexemes
        ((significantTokens tokens).filter (·.kind != .eof)) := by
  induction lexemes generalizing offset with
  | nil => exact ⟨_, .finish offset, .nil⟩
  | cons lexeme lexemes ih =>
    obtain ⟨hlexeme, hlexemes⟩ := List.forall_mem_cons.mp h
    rcases lexemes with _ | ⟨next, lexemes⟩
    · refine ⟨_, by simpa using of_standsAlone hlexeme offset, ?_⟩
      rw [proper_of_standsAlone hlexeme]
      exact .cons ⟨[], [], by simp, rfl⟩ .nil
    · have hsize : byteLength (lexeme.text ++ [' ']) = byteLength lexeme.text + 1 := by
        rw [Text.byteLength_append]
        rfl
      obtain ⟨tokens, htokens, hat⟩ := ih (offset + byteLength lexeme.text + 1) hlexemes
      obtain ⟨all, hall, hproper⟩ := exists_space hlexeme htokens
      have hspaced : [' '].intercalate ((lexeme :: next :: lexemes).map (·.text)) =
          (lexeme.text ++ [' ']) ++ [' '].intercalate ((next :: lexemes).map (·.text)) := by
        simp
      refine ⟨all, by simpa [hspaced] using hall, ?_⟩
      rw [hproper, hspaced]
      refine .cons ⟨[], _, List.append_assoc .., rfl⟩ (hat.imp fun other token hother => ?_)
      rw [Nat.add_assoc, ← hsize] at hother
      exact hother.append _

end Lexes

end LosslessSyntax
