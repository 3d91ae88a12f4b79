import LosslessSyntax.Proofs.Lexing.Lexemes
import Mathlib.Computability.Language
/-!
What stands between two quotes, as a language. The body of a literal is read just when it is of that
language, whatever stands behind the closing quote.
-/
namespace LosslessSyntax

namespace Lexeme

open scoped Computability

variable {language : Language Char} {escapes : Char → Bool} {quote : Char}
  {word text body : List Char}

def one (p : Char → Bool) : Language Char := {word | ∃ c, word = [c] ∧ p c}

/-- One thing between two quotes: a backslash with a character that it escapes, or another
character. -/
def quotedTexts (escapes : Char → Bool) (quote : Char) : Language Char :=
  {['\\']} * one escapes + one fun c => c != quote && c != '\\'

theorem append_mem_kstar {run : List Char} (hword : word ∈ language) (hrun : run ∈ language∗) :
    word ++ run ∈ language∗ := by
  obtain ⟨pieces, rfl, hpieces⟩ := Language.mem_kstar.mp hrun
  exact Language.mem_kstar.mpr
    ⟨word :: pieces, rfl, List.forall_mem_cons.mpr ⟨hword, hpieces⟩⟩

theorem mem_singleton_mul {front : List Char} :
    word ∈ ({front} : Language Char) * language ↔ ∃ back ∈ language, word = front ++ back := by
  rw [Language.mem_mul]
  constructor
  · rintro ⟨_, rfl, back, hback, rfl⟩
    exact ⟨back, hback, rfl⟩
  · rintro ⟨back, hback, rfl⟩
    exact ⟨front, rfl, back, hback, rfl⟩

theorem mem_quotedTexts :
    word ∈ quotedTexts escapes quote ↔
      (∃ c, word = ['\\', c] ∧ escapes c) ∨ ∃ c, word = [c] ∧ c ≠ quote ∧ c ≠ '\\' := by
  constructor
  · rintro (h | ⟨c, rfl, hc⟩)
    · obtain ⟨_, ⟨c, rfl, hc⟩, rfl⟩ := mem_singleton_mul.mp h
      exact .inl ⟨c, rfl, hc⟩
    · exact .inr ⟨c, rfl, by simpa using hc⟩
  · rintro (⟨c, rfl, hc⟩ | ⟨c, rfl, hc⟩)
    · exact .inl (mem_singleton_mul.mpr ⟨[c], ⟨c, rfl, hc⟩, rfl⟩)
    · exact .inr ⟨c, rfl, by simpa using hc⟩

theorem stringBody?_item {item : List Char} (hitem : item ∈ quotedTexts escapes '"')
    (htext : text ≠ []) :
    stringBody? escapes (item ++ text) = (stringBody? escapes text).map (item ++ ·) := by
  obtain ⟨d, text, rfl⟩ := List.exists_cons_of_ne_nil htext
  rcases mem_quotedTexts.mp hitem with ⟨c, rfl, hc⟩ | ⟨c, rfl, hquote, hbackslash⟩
  · simp [stringBody?, hc]
  · simp [stringBody?, hquote, hbackslash]

theorem stringBody?_mem (h : stringBody? escapes text = some body) :
    body ∈ (quotedTexts escapes '"')∗ := by
  fun_induction stringBody? escapes text generalizing body with
  | case1 => contradiction
  | case2 c hc =>
    obtain rfl := Option.some.inj h
    exact Language.nil_mem_kstar _
  | case3 => contradiction
  | case4 c d text hc =>
    obtain rfl := Option.some.inj h
    exact Language.nil_mem_kstar _
  | case5 c d text hquote hbackslash hescape ih =>
    obtain ⟨inner, hinner, rfl⟩ := Option.map_eq_some_iff.mp h
    obtain rfl := eq_of_beq hbackslash
    exact append_mem_kstar (mem_quotedTexts.mpr (.inl ⟨d, rfl, hescape⟩)) (ih hinner)
  | case6 => contradiction
  | case7 c d text hquote hbackslash ih =>
    obtain ⟨inner, hinner, rfl⟩ := Option.map_eq_some_iff.mp h
    have hitem : [c] ∈ quotedTexts escapes '"' :=
      mem_quotedTexts.mpr (.inr ⟨c, rfl, by simpa using hquote, by simpa using hbackslash⟩)
    exact append_mem_kstar hitem (ih hinner)

theorem stringBody?_append (h : body ∈ (quotedTexts escapes '"')∗) (back : List Char) :
    stringBody? escapes (body ++ '"' :: back) = some body := by
  obtain ⟨items, rfl, hitems⟩ := Language.mem_kstar.mp h
  clear h
  induction items with
  | nil => cases back <;> rfl
  | cons item items ih =>
    obtain ⟨hitem, hitems⟩ := List.forall_mem_cons.mp hitems
    rw [List.flatten_cons, List.append_assoc, stringBody?_item hitem (by simp), ih hitems]
    rfl

theorem charBody?_mem (h : charBody? text = some body) :
    body ∈ quotedTexts isEscape '\'' := by
  unfold charBody? at h
  split at h
  · split at h
    · rename_i hescape
      obtain rfl := Option.some.inj h
      exact mem_quotedTexts.mpr (.inl ⟨_, rfl, hescape⟩)
    · contradiction
  · split at h
    · contradiction
    · rename_i hc
      obtain rfl := Option.some.inj h
      exact mem_quotedTexts.mpr (.inr ⟨_, rfl, by simpa using hc⟩)
  · contradiction

theorem charBody?_append (h : body ∈ quotedTexts isEscape '\'') (back : List Char) :
    charBody? (body ++ '\'' :: back) = some body := by
  rcases mem_quotedTexts.mp h with ⟨c, rfl, hc⟩ | ⟨c, rfl, hquote, hbackslash⟩
  · simp [charBody?, hc]
  · simp [charBody?, hquote, hbackslash]

end Lexeme

end LosslessSyntax
