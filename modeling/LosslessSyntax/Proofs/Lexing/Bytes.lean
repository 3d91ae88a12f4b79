import LosslessSyntax.Text.Offset
import Mathlib.Data.List.Basic
/-!
Characters and their bytes: no character begins with another, so a text can be told from its bytes,
and texts that share bytes share characters.
-/
namespace LosslessSyntax.Text

@[simp] theorem bytes_nil : bytes [] = [] := rfl

@[simp] theorem bytes_cons (c : Char) (text : List Char) :
    bytes (c :: text) = String.utf8EncodeChar c ++ bytes text := rfl

@[simp] theorem bytes_append (front back : List Char) :
    bytes (front ++ back) = bytes front ++ bytes back := by
  simp [bytes]

@[simp] theorem length_bytes (text : List Char) : (bytes text).length = byteLength text := by
  induction text with
  | nil => rfl
  | cons c text ih => simp [ih]

theorem eq_of_utf8EncodeChar_append {c d : Char} {bytes bytes' : List UInt8}
    (h : String.utf8EncodeChar c ++ bytes = String.utf8EncodeChar d ++ bytes') :
    c = d ∧ bytes = bytes' := by
  have hdecode := congrArg (fun bytes : List UInt8 => bytes.toByteArray.utf8DecodeChar? 0) h
  simp only [List.toByteArray_append, ByteArray.utf8DecodeChar?_utf8EncodeChar_append,
    Option.some.injEq] at hdecode
  subst hdecode
  exact ⟨rfl, List.append_cancel_left h⟩

theorem bytes_injective {text text' : List Char} (h : bytes text = bytes text') :
    text = text' := by
  induction text generalizing text' with
  | nil =>
    cases text' with
    | nil => rfl
    | cons d text' => simp [String.utf8EncodeChar_ne_nil] at h
  | cons c text ih =>
    cases text' with
    | nil => simp [String.utf8EncodeChar_ne_nil] at h
    | cons d text' =>
      obtain ⟨rfl, hrest⟩ := eq_of_utf8EncodeChar_append h
      rw [ih hrest]

theorem drop_bytes_append (front back : List Char) :
    (bytes (front ++ back)).drop (byteLength front) = bytes back := by
  rw [bytes_append, ← length_bytes, List.drop_left]

theorem take_bytes_append (front back : List Char) :
    (bytes (front ++ back)).take (byteLength front) = bytes front := by
  rw [bytes_append, ← length_bytes, List.take_left]

theorem take_bytes_cons {c : Char} {text : List Char} {n : Nat} (h : 4 ≤ n) :
    (bytes (c :: text)).take n =
      String.utf8EncodeChar c ++ (bytes text).take (n - c.utf8Size) := by
  have hsize := c.utf8Size_le_four
  rw [bytes_cons, List.take_append, String.length_utf8EncodeChar, List.take_of_length_le]
  rw [String.length_utf8EncodeChar]
  omega

theorem exists_common_front {text text' : List Char} {n : Nat} (hn : n ≤ byteLength text)
    (hn' : n ≤ byteLength text') (h : (bytes text).take n = (bytes text').take n) :
    ∃ front back back', text = front ++ back ∧ text' = front ++ back' ∧
      n ≤ byteLength front + 3 := by
  induction text generalizing text' n with
  | nil => exact ⟨[], [], text', rfl, rfl, by simp at hn; omega⟩
  | cons c text ih =>
    by_cases hshort : n ≤ 3
    · exact ⟨[], c :: text, text', rfl, rfl, by omega⟩
    cases text' with
    | nil => simp at hn'; omega
    | cons d text' =>
      rw [take_bytes_cons (by omega), take_bytes_cons (by omega)] at h
      obtain ⟨rfl, hrest⟩ := eq_of_utf8EncodeChar_append h
      rw [byteLength_cons] at hn hn'
      obtain ⟨front, back, back', rfl, rfl, hfront⟩ := ih (by omega) (by omega) hrest
      exact ⟨c :: front, back, back', rfl, rfl, by rw [byteLength_cons]; omega⟩

end LosslessSyntax.Text
