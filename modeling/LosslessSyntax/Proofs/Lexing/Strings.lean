import LosslessSyntax.Proofs.Lexing.LongestMatch
import LosslessSyntax.Proofs.Lexing.Settled
import LosslessSyntax.Proofs.Lexing.Units
/-!
What a double quote begins. Three rules try it one after the other, and together they are one scan
by escape pairs up to the first closing quote: the pairs before that quote decide whether the string
is good, has a bad escape or is taken for one that does not close.
-/
namespace LosslessSyntax

open Text (byteLength units ClosedBy Unsupported supportedEscapes)

namespace Lexeme

variable {text : List Char} {body : List (List Char)}

theorem first_of_supported (hclosed : ClosedBy text body)
    (hbody : ∀ unit ∈ body, ¬Unsupported unit) :
    first '"' text = ⟨.string, '"' :: body.flatten ++ ['"'], Text.unescape body.flatten⟩ := by
  have hescapes : ∀ c, ['\\', c] ∈ body → isEscape c := by
    intro c hc
    rw [isEscape_iff]
    by_contra hunsupported
    exact hbody _ hc ⟨c, hunsupported, rfl⟩
  have hread : stringBody? isEscape text = some body.flatten :=
    stringBody?_eq_some_iff.mpr
      ⟨body, hclosed, (forall_mem_quotedTexts_iff hclosed).mpr hescapes, rfl⟩
  simp [first_quote_eq, string, hread]

theorem string_eq_none_of_unsupported (hclosed : ClosedBy text body)
    (hbody : ∃ unit ∈ body, Unsupported unit) : string ('"' :: text) = none := by
  rw [string, Option.map_eq_none_iff, Option.eq_none_iff_forall_ne_some]
  intro inner hinner
  obtain ⟨body', hclosed', hitems, -⟩ := stringBody?_eq_some_iff.mp hinner
  obtain rfl := hclosed.unique hclosed'
  obtain ⟨_, hunit, c, hc, rfl⟩ := hbody
  exact hc (isEscape_iff.mp ((forall_mem_quotedTexts_iff hclosed).mp hitems c hunit))

theorem first_of_unsupported (hclosed : ClosedBy text body)
    (hbody : ∃ unit ∈ body, Unsupported unit) (hbreak : ['\\', '\n'] ∉ body) :
    first '"' text = plain (.error .invalidEscape) ('"' :: body.flatten ++ ['"']) := by
  have hescapes : ∀ c, ['\\', c] ∈ body → c != '\n' := by
    intro c hc
    rw [bne_iff_ne]
    rintro rfl
    exact hbreak hc
  have hread : stringBody? (· != '\n') text = some body.flatten :=
    stringBody?_eq_some_iff.mpr
      ⟨body, hclosed, (forall_mem_quotedTexts_iff hclosed).mpr hescapes, rfl⟩
  simp [first_quote_eq, string_eq_none_of_unsupported hclosed hbody, stringWithInvalidEscape, hread]

theorem first_of_not_closed (h : ∀ body, ClosedBy text body → ['\\', '\n'] ∈ body) :
    first '"' text =
      plain (.error .unterminatedString) ('"' :: text.takeWhile (· != '\n')) := by
  -- neither rule admits a line break behind a backslash
  have hnone (escapes : Char → Bool) (hescapes : escapes '\n' = false) :
      stringBody? escapes text = none := by
    rw [Option.eq_none_iff_forall_ne_some]
    intro inner hinner
    obtain ⟨body, hclosed, hitems, -⟩ := stringBody?_eq_some_iff.mp hinner
    have hbreak := (forall_mem_quotedTexts_iff hclosed).mp hitems '\n' (h body hclosed)
    rw [hescapes] at hbreak
    contradiction
  simp [first_quote_eq, string, stringWithInvalidEscape, hnone isEscape (by decide),
    hnone (· != '\n') (by decide)]

end Lexeme

/-- How a token is classified that a quote at some offset begins, by the text behind the quote. -/
structure Token.QuotedAt (token : Token) (offset : Nat) (text : List Char) : Prop where
  string : ∀ body, ClosedBy text body → (∀ unit ∈ body, ¬Unsupported unit) →
    token.kind = .string ∧
    token.span = .ofOffsets offset (offset + byteLength ('"' :: body.flatten ++ ['"']))
  invalidEscape : ∀ body, ClosedBy text body → (∃ unit ∈ body, Unsupported unit) →
    ['\\', '\n'] ∉ body →
    token.kind = .error .invalidEscape ∧
    token.span = .ofOffsets offset (offset + byteLength ('"' :: body.flatten ++ ['"']))
  unterminated : (∀ body, ClosedBy text body → ['\\', '\n'] ∈ body) →
    token.kind = .error .unterminatedString ∧
    token.span = .ofOffsets offset
      (offset + byteLength ('"' :: text.takeWhile (· != '\n')))

theorem quotedAt_first (offset : Nat) (text : List Char) :
    ((Lexeme.first '"' text).token offset).QuotedAt offset text where
  string body hclosed hbody := by
    rw [Lexeme.first_of_supported hclosed hbody]
    exact ⟨rfl, rfl⟩
  invalidEscape body hclosed hbody hbreak := by
    rw [Lexeme.first_of_unsupported hclosed hbody hbreak]
    exact ⟨rfl, rfl⟩
  unterminated h := by
    rw [Lexeme.first_of_not_closed h]
    exact ⟨rfl, rfl⟩

/-- A token that stands at a quote is classified by the scan of the text behind the quote. -/
theorem tokenize_quotedAt {source : String} {before after : List Token} {token : Token}
    (h : tokenize source = before ++ token :: after) :
    ∃ front rest, source.toList = front ++ rest ∧
      (Lexer.startingAt source (byteLength front)).tokens = token :: after ∧
      ∀ text, rest = '"' :: text → token.QuotedAt (byteLength front) text := by
  have hlexes := lexes_tokenize source
  rw [h] at hlexes
  obtain ⟨front, rest, hsource, hrest⟩ := hlexes.exists_split (List.cons_ne_nil token after)
  rw [Nat.zero_add] at hrest
  refine ⟨front, rest, hsource, ?_, ?_⟩
  · rw [Lexer.startingAt_append hsource]
    exact (lexes_tokens _ _).unique hrest
  · rintro text rfl
    cases hrest with
    | lexeme first =>
      subst first
      exact quotedAt_first _ text

/-- The line breaks behind a backslash, so that the quote on the next line closes nothing. -/
theorem tokenize_quotedAt_break :
    tokenize "a \"\\\n\"" =
      [⟨.identifier, "a", .ofOffsets 0 1⟩, ⟨.whitespace, " ", .ofOffsets 1 2⟩] ++
        ⟨.error .unterminatedString, "\"\\", .ofOffsets 2 4⟩ ::
          [⟨.whitespace, "\n", .ofOffsets 4 5⟩,
            ⟨.error .unterminatedString, "\"", .ofOffsets 5 6⟩, .endOfFile 6] ∧
    ∃ front rest, "a \"\\\n\"".toList = front ++ rest ∧
      (Lexer.startingAt "a \"\\\n\"" (byteLength front)).tokens =
        ⟨.error .unterminatedString, "\"\\", .ofOffsets 2 4⟩ ::
          [⟨.whitespace, "\n", .ofOffsets 4 5⟩,
            ⟨.error .unterminatedString, "\"", .ofOffsets 5 6⟩, .endOfFile 6] ∧
      ∀ text, rest = '"' :: text →
        Token.QuotedAt ⟨.error .unterminatedString, "\"\\", .ofOffsets 2 4⟩
          (byteLength front) text := by
  have htokens : tokenize "a \"\\\n\"" =
      [⟨.identifier, "a", .ofOffsets 0 1⟩, ⟨.whitespace, " ", .ofOffsets 1 2⟩] ++
        ⟨.error .unterminatedString, "\"\\", .ofOffsets 2 4⟩ ::
          [⟨.whitespace, "\n", .ofOffsets 4 5⟩,
            ⟨.error .unterminatedString, "\"", .ofOffsets 5 6⟩, .endOfFile 6] := by
    decide
  exact ⟨htokens, tokenize_quotedAt htokens⟩

end LosslessSyntax
