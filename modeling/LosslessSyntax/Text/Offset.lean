/-!
Byte offsets into text. A text is read as a list of characters and an offset counts the bytes of
their UTF-8 forms, so an offset may fall inside a character.
-/
namespace LosslessSyntax.Text

def byteLength : List Char → Nat
  | [] => 0
  | c :: rest => c.utf8Size + byteLength rest

def bytes (text : List Char) : List UInt8 :=
  text.flatMap String.utf8EncodeChar

/-- What is left after the characters that begin before byte `n`. -/
def skipBytes : Nat → List Char → List Char
  | _, [] => []
  | n, c :: rest => if n = 0 then c :: rest else skipBytes (n - c.utf8Size) rest

/-- The text after its first `n` bytes, if a character begins there or the text ends. -/
def dropBytes? : Nat → List Char → Option (List Char)
  | n, [] => if n = 0 then some [] else none
  | n, c :: rest =>
    if n = 0 then some (c :: rest)
    else if n < c.utf8Size then none
    else dropBytes? (n - c.utf8Size) rest

def takeBytes? : Nat → List Char → Option (List Char)
  | n, [] => if n = 0 then some [] else none
  | n, c :: rest =>
    if n = 0 then some []
    else if n < c.utf8Size then none
    else (takeBytes? (n - c.utf8Size) rest).map (c :: ·)

/-- The text between two byte offsets, if they are in order and both fall between characters. -/
def slice? (start stop : Nat) (text : List Char) : Option (List Char) :=
  if start ≤ stop then (dropBytes? start text).bind (takeBytes? (stop - start)) else none

@[simp] theorem byteLength_nil : byteLength [] = 0 := rfl

@[simp] theorem byteLength_cons (c : Char) (rest : List Char) :
    byteLength (c :: rest) = c.utf8Size + byteLength rest := rfl

@[simp] theorem byteLength_append (front back : List Char) :
    byteLength (front ++ back) = byteLength front + byteLength back := by
  induction front with
  | nil => simp
  | cons c rest ih => simp [ih, Nat.add_assoc]

theorem byteLength_pos {text : List Char} (h : text ≠ []) : 0 < byteLength text := by
  cases text with
  | nil => contradiction
  | cons c rest =>
    have := c.utf8Size_pos
    simp only [byteLength_cons]
    omega

theorem prefix_of_byteLength_le {shorter longer text : List Char} (hshorter : shorter <+: text)
    (hlonger : longer <+: text) (h : byteLength shorter ≤ byteLength longer) :
    shorter <+: longer := by
  rcases List.prefix_or_prefix_of_prefix hshorter hlonger with hprefix | ⟨rest, rfl⟩
  · exact hprefix
  · rw [byteLength_append] at h
    cases rest with
    | nil => simp
    | cons c rest =>
      have := c.utf8Size_pos
      rw [byteLength_cons] at h
      omega

theorem dropBytes?_eq_some_iff {n : Nat} {text back : List Char} :
    dropBytes? n text = some back ↔ ∃ front, text = front ++ back ∧ byteLength front = n := by
  fun_induction dropBytes? n text with
  | case1 =>
    constructor
    · intro h
      exact ⟨[], by simpa using h, rfl⟩
    · rintro ⟨front, htext, -⟩
      obtain ⟨-, rfl⟩ := List.append_eq_nil_iff.mp htext.symm
      rfl
  | case2 n hn =>
    simp only [reduceCtorEq, false_iff, not_exists, not_and]
    intro front h
    obtain ⟨rfl, -⟩ := List.append_eq_nil_iff.mp h.symm
    simpa [eq_comm] using hn
  | case3 c rest =>
    constructor
    · intro h
      exact ⟨[], by simpa using h, rfl⟩
    · rintro ⟨front, htext, hlength⟩
      cases front with
      | nil => simpa using htext
      | cons d front =>
        have := d.utf8Size_pos
        simp at hlength
        omega
  | case4 n c rest hn hc =>
    simp only [reduceCtorEq, false_iff, not_exists, not_and]
    intro front htext hlength
    cases front with
    | nil => exact hn (by simpa using hlength.symm)
    | cons d front =>
      obtain ⟨rfl, -⟩ := List.cons.inj htext
      simp at hlength
      omega
  | case5 n c rest hn hc ih =>
    rw [ih]
    constructor
    · intro h
      obtain ⟨front, htail, hlength⟩ := h
      refine ⟨c :: front, by simp [htail], ?_⟩
      rw [byteLength_cons, hlength]
      omega
    · rintro ⟨front, htext, hlength⟩
      cases front with
      | nil => exact absurd hlength.symm (by simpa using hn)
      | cons d front =>
        obtain ⟨rfl, rfl⟩ := List.cons.inj htext
        exact ⟨front, rfl, by simp at hlength; omega⟩

theorem takeBytes?_append (front back : List Char) :
    takeBytes? (byteLength front) (front ++ back) = some front := by
  induction front with
  | nil => cases back <;> simp [takeBytes?]
  | cons c front ih =>
    have := c.utf8Size_pos
    have hne : byteLength (c :: front) ≠ 0 := by
      rw [byteLength_cons]
      omega
    have hle : ¬byteLength (c :: front) < c.utf8Size := by
      rw [byteLength_cons]
      omega
    rw [List.cons_append, takeBytes?, if_neg hne, if_neg hle, byteLength_cons,
      Nat.add_sub_cancel_left, ih, Option.map_some]

theorem slice?_append (front piece back : List Char) :
    slice? (byteLength front) (byteLength front + byteLength piece) (front ++ piece ++ back) =
      some piece := by
  have hdrop : dropBytes? (byteLength front) (front ++ piece ++ back) = some (piece ++ back) :=
    dropBytes?_eq_some_iff.mpr ⟨front, List.append_assoc .., rfl⟩
  rw [slice?, if_pos (Nat.le_add_right _ _), hdrop, Option.bind_some, Nat.add_sub_cancel_left,
    takeBytes?_append]

end LosslessSyntax.Text
