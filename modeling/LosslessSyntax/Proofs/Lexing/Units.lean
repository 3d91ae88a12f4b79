import LosslessSyntax.Proofs.Lexing.Quoted
/-!
A text read by escape pairs: a backslash and the character behind it are one unit, and every other
character is a unit by itself. What closes a string, what its escapes are and which of them comes
first are questions about units.
-/
namespace LosslessSyntax

namespace Text

/-- The units of a text. Only a backslash at the very end has no character to pair with. -/
def units : List Char → List (List Char)
  | [] => []
  | [c] => [[c]]
  | c :: d :: text => if c = '\\' then [c, d] :: units text else [c] :: units (d :: text)

def supportedEscapes : List Char := ['n', 'r', 't', '"', '\'', '\\', '0']

def Unsupported (unit : List Char) : Prop := ∃ c ∉ supportedEscapes, unit = ['\\', c]

/-- The first closing quote of a text stands behind these units. -/
structure ClosedBy (text : List Char) (body : List (List Char)) : Prop where
  not_mem : ['"'] ∉ body
  closed : ∃ behind, units text = body ++ ['"'] :: behind

variable {c : Char} {text : List Char} {body : List (List Char)}

theorem units_cons (hc : c ≠ '\\') (text : List Char) : units (c :: text) = [c] :: units text := by
  cases text <;> simp [units, hc]

theorem units_pair (c : Char) (text : List Char) :
    units ('\\' :: c :: text) = ['\\', c] :: units text := by
  simp [units]

theorem flatten_units (text : List Char) : (units text).flatten = text := by
  fun_induction units text with
  | case1 => rfl
  | case2 => rfl
  | case3 _ _ ih => simpa using ih
  | case4 _ _ _ _ ih => simpa using ih

theorem mem_units_front {front behind : List (List Char)} (h : units text = front ++ behind)
    (hbehind : behind ≠ []) :
    ∀ unit ∈ front, (∃ c, unit = ['\\', c]) ∨ ∃ c, unit = [c] ∧ c ≠ '\\' := by
  fun_induction units text generalizing front with
  | case1 => exact absurd (List.append_eq_nil_iff.mp h.symm).2 hbehind
  | case2 c =>
    rcases List.append_eq_singleton_iff.mp h.symm with ⟨rfl, -⟩ | ⟨-, rfl⟩
    · simp
    · contradiction
  | case3 d text ih =>
    rcases front with _ | ⟨unit, front⟩
    · simp
    · obtain ⟨rfl, htail⟩ := List.cons.inj h
      exact List.forall_mem_cons.mpr ⟨.inl ⟨d, rfl⟩, ih htail⟩
  | case4 c d text hc ih =>
    rcases front with _ | ⟨unit, front⟩
    · simp
    · obtain ⟨rfl, htail⟩ := List.cons.inj h
      exact List.forall_mem_cons.mpr ⟨.inr ⟨c, rfl, hc⟩, ih htail⟩

theorem isSome_escaped?_iff : (escaped? c).isSome ↔ c ∈ supportedEscapes := by
  unfold escaped?
  split
  case h_8 => simp_all [supportedEscapes]
  all_goals exact iff_of_true rfl (by decide)

theorem ClosedBy.unique {body' : List (List Char)} (h : ClosedBy text body)
    (h' : ClosedBy text body') : body = body' := by
  obtain ⟨behind, hbehind⟩ := h.closed
  obtain ⟨behind', hbehind'⟩ := h'.closed
  rw [hbehind] at hbehind'
  rcases List.append_eq_append_iff.mp hbehind' with ⟨middle, rfl, hmiddle⟩ | ⟨middle, rfl, hmiddle⟩
  · rcases middle with _ | ⟨unit, middle⟩
    · simp
    · obtain ⟨rfl, -⟩ := List.cons.inj hmiddle
      exact absurd (by simp) h'.not_mem
  · rcases middle with _ | ⟨unit, middle⟩
    · simp
    · obtain ⟨rfl, -⟩ := List.cons.inj hmiddle
      exact absurd (by simp) h.not_mem

end Text

namespace Lexeme

open Text (units ClosedBy supportedEscapes)
open scoped Computability

variable {escapes : Char → Bool} {quote : Char} {text inner : List Char}
  {items : List (List Char)}

theorem isEscape_iff {c : Char} : isEscape c ↔ c ∈ supportedEscapes :=
  Text.isSome_escaped?_iff

theorem units_flatten_append (h : ∀ item ∈ items, item ∈ quotedTexts escapes quote)
    (back : List Char) : units (items.flatten ++ back) = items ++ units back := by
  induction items with
  | nil => rfl
  | cons item items ih =>
    obtain ⟨hitem, hitems⟩ := List.forall_mem_cons.mp h
    rw [List.flatten_cons, List.append_assoc, List.cons_append]
    rcases mem_quotedTexts.mp hitem with ⟨c, rfl, -⟩ | ⟨c, rfl, -, hc⟩
    · rw [List.cons_append, List.singleton_append, Text.units_pair, ih hitems]
    · rw [List.singleton_append, Text.units_cons hc, ih hitems]

theorem stringBody?_eq_some_iff :
    stringBody? escapes text = some inner ↔ ∃ body, ClosedBy text body ∧
      (∀ unit ∈ body, unit ∈ quotedTexts escapes '"') ∧ inner = body.flatten := by
  constructor
  · intro h
    obtain ⟨back, rfl⟩ := front_stringBody? h
    obtain ⟨body, rfl, hbody⟩ := Language.mem_kstar.mp (stringBody?_mem h)
    refine ⟨body, ⟨?_, units back, ?_⟩, hbody, rfl⟩
    · intro hquote
      rcases mem_quotedTexts.mp (hbody _ hquote) with ⟨c, hc, -⟩ | ⟨c, hc, hne, -⟩
      · simp at hc
      · exact hne (List.singleton_inj.mp hc).symm
    · rw [List.append_assoc, units_flatten_append hbody, List.singleton_append,
        Text.units_cons (by decide)]
  · rintro ⟨body, ⟨-, behind, hbehind⟩, hbody, rfl⟩
    have htext := Text.flatten_units text
    rw [hbehind, List.flatten_append, List.flatten_cons, List.singleton_append] at htext
    rw [← htext]
    exact stringBody?_append (Language.mem_kstar.mpr ⟨body, rfl, hbody⟩) _

theorem forall_mem_quotedTexts_iff {body : List (List Char)} (h : ClosedBy text body) :
    (∀ unit ∈ body, unit ∈ quotedTexts escapes '"') ↔ ∀ c, ['\\', c] ∈ body → escapes c := by
  constructor
  · intro hbody c hc
    rcases mem_quotedTexts.mp (hbody _ hc) with ⟨d, hd, hescape⟩ | ⟨d, hd, -⟩
    · obtain rfl : c = d := by simpa using hd
      exact hescape
    · simp at hd
  · intro hescapes unit hunit
    obtain ⟨behind, hbehind⟩ := h.closed
    rcases Text.mem_units_front hbehind (List.cons_ne_nil _ _) unit hunit with
      ⟨c, rfl⟩ | ⟨c, rfl, hc⟩
    · exact mem_quotedTexts.mpr (.inl ⟨c, rfl, hescapes c hunit⟩)
    · have hquote : c ≠ '"' := by
        rintro rfl
        exact h.not_mem hunit
      exact mem_quotedTexts.mpr (.inr ⟨c, rfl, hquote, hc⟩)

end Lexeme

end LosslessSyntax
