import LosslessSyntax.Proofs.Lines
import Mathlib.Data.List.TakeWhile
/-!
Excerpts: below the line that a diagnostic is about there is a caret. It is as far from the label of
the line as the character is in bytes, while the line above it is shown in characters. So it stands
below the character if all that is shown before it takes one byte each, else too far to the right.
-/
namespace LosslessSyntax

open Text (byteLength)

namespace Text

variable {front back rest text : List Char} {c : Char}

theorem trimEnd_isPrefix (text : List Char) : trimEnd text <+: text := by
  rw [trimEnd, trimStart, ← List.reverse_suffix, List.reverse_reverse]
  exact List.dropWhile_suffix _

theorem trimEnd_ne_nil (h : ∃ d ∈ text, isBlank d = false) : trimEnd text ≠ [] := by
  obtain ⟨d, hmem, hblank⟩ := h
  rw [trimEnd, trimStart, ne_eq, List.reverse_eq_nil_iff, List.dropWhile_eq_nil_iff]
  intro hall
  exact absurd (hall d (List.mem_reverse.mpr hmem)) (by simp [hblank])

theorem trimEnd_append (front : List Char) (h : ∃ d ∈ back, isBlank d = false) :
    trimEnd (front ++ back) = front ++ trimEnd back := by
  have hne := trimEnd_ne_nil h
  rw [trimEnd, trimStart, ne_eq, List.reverse_eq_nil_iff] at hne
  rw [trimEnd, trimEnd, trimStart, trimStart, List.reverse_append, List.dropWhile_append,
    if_neg (by simpa using hne), List.reverse_append, List.reverse_reverse]

theorem trimEnd_break (text : List Char) : trimEnd (text ++ ['\n']) = trimEnd text := by
  rw [trimEnd, trimStart, List.reverse_append]
  rfl

theorem break_notMem_trimEnd (h : '\n' ∉ text) (hrest : rest = [] ∨ rest = ['\n']) :
    '\n' ∉ trimEnd (text ++ rest) := by
  have hsame : trimEnd (text ++ rest) = trimEnd text := by
    rcases hrest with rfl | rfl
    · rw [List.append_nil]
    · exact trimEnd_break text
  rw [hsame]
  exact fun hmem => h ((trimEnd_isPrefix text).mem hmem)

theorem prefix_trimEnd (front : List Char) (h : ∃ d ∈ c :: rest, isBlank d = false) :
    front ++ [c] <+: trimEnd (front ++ c :: rest) := by
  obtain ⟨d, kept, hkept⟩ := List.exists_cons_of_ne_nil (trimEnd_ne_nil h)
  have hprefix := trimEnd_isPrefix (c :: rest)
  rw [hkept, List.cons_prefix_cons] at hprefix
  rw [trimEnd_append front h, hkept, hprefix.1]
  exact ⟨kept, List.append_assoc ..⟩

theorem length_le_byteLength (text : List Char) : text.length ≤ byteLength text := by
  induction text with
  | nil => exact Nat.le_refl _
  | cons c text ih =>
    have := c.utf8Size_pos
    rw [List.length_cons, byteLength_cons]
    omega

theorem byteLength_eq_length_iff :
    byteLength text = text.length ↔ ∀ d ∈ text, d.utf8Size = 1 := by
  induction text with
  | nil => simp
  | cons c text ih =>
    have hsize := c.utf8Size_pos
    have hle := length_le_byteLength text
    rw [List.forall_mem_cons, ← ih, byteLength_cons, List.length_cons]
    omega

end Text

section Output

variable {output above upper lower pad : List Char}

def lineAboveLast? (output : List Char) : Option (List Char) :=
  (splitLines output).dropLast.getLast?

def caret? (output : List Char) : Option Nat :=
  (splitLines output).getLast?.bind (·.idxOf? '^')

theorem splitLines_twoLines (habove : above = [] ∨ above.getLast? = some '\n')
    (hupper : '\n' ∉ upper) (hlower : '\n' ∉ lower) :
    splitLines (above ++ (upper ++ '\n' :: (lower ++ ['\n']))) =
      splitLines above ++ [upper ++ ['\n'], lower ++ ['\n']] := by
  rw [splitLines_append habove, splitLines_line hupper (.inr rfl) (by simp), List.drop_one,
    List.tail_cons, splitLines_line hlower (.inr rfl) (by simp)]
  rfl

theorem lineAboveLast?_twoLines (habove : above = [] ∨ above.getLast? = some '\n')
    (hupper : '\n' ∉ upper) (hlower : '\n' ∉ lower) :
    lineAboveLast? (above ++ (upper ++ '\n' :: (lower ++ ['\n']))) = some (upper ++ ['\n']) := by
  rw [lineAboveLast?, splitLines_twoLines habove hupper hlower, List.dropLast_append_of_ne_nil
    (List.cons_ne_nil _ _)]
  simp

theorem caret?_twoLines (habove : above = [] ∨ above.getLast? = some '\n')
    (hupper : '\n' ∉ upper) (hbreak : '\n' ∉ pad) (hcaret : '^' ∉ pad) :
    caret? (above ++ (upper ++ '\n' :: (pad ++ ['^'] ++ ['\n']))) = some pad.length := by
  have hlower : '\n' ∉ pad ++ ['^'] := by simp [hbreak]
  have hpad : pad.findIdx? (· == '^') = none := List.idxOf?_eq_none_iff.mpr hcaret
  rw [caret?, splitLines_twoLines habove hupper hlower]
  simp [List.idxOf?, List.findIdx?_append, List.findIdx?_cons, hpad]

end Output

namespace Diagnostic

def label (line : Nat) : List Char := (toString line).toList ++ [' ', '|', ' ']

def margin (line : Nat) : List Char :=
  List.replicate ((toString line).length + 1) ' ' ++ ['|']

theorem length_label (line : Nat) : (label line).length = (margin line ++ [' ']).length := by
  simp only [label, margin, List.length_append, String.length_toList, List.length_replicate,
    List.length_cons, List.length_nil]

theorem break_notMem_label (line : Nat) : '\n' ∉ label line := by
  have hdigits : '\n' ∉ (toString line).toList := by
    intro hmem
    rw [Nat.toString_eq_repr, Nat.toList_repr] at hmem
    have hdigit := Nat.isDigit_of_mem_toDigits (by decide) (by decide) hmem
    contradiction
  simpa [label] using hdigits

theorem toList_padLeft (fill : Char) (width : Nat) (text : String) :
    (padLeft fill width text).toList =
      List.replicate (width - text.length) fill ++ text.toList := by
  rw [padLeft, String.toList_append, String.toList_ofList]

def unindented (text : List Char) : List Char := text.dropWhile (· = ' ')

theorem toList_excerpt (location : Location) :
    (excerpt location).toList =
      margin location.line ++ ['\n'] ++
        ((label location.line ++ Text.trimEnd (unindented location.text)) ++ '\n' ::
          (margin location.line ++ [' '] ++ List.replicate (location.column -
            (location.text.length - (unindented location.text).length)) '-' ++ ['^'] ++
              ['\n'])) := by
  have hbar : "|".length = 1 := rfl
  have hcaret : "^".length = 1 := rfl
  simp [excerpt, toList_padLeft, label, margin, unindented, hbar, hcaret]

theorem unindented_suffix (text : List Char) : unindented text <:+ text :=
  List.dropWhile_suffix _

section Indentation

variable {before : List Char} {c : Char}

theorem unindented_append (h : ∃ d ∈ before ++ [c], d ≠ ' ') (rest : List Char) :
    unindented (before ++ c :: rest) = unindented before ++ c :: rest := by
  unfold unindented
  rw [List.dropWhile_append]
  by_cases hspaces : before.dropWhile (· = ' ') = []
  · have hc : c ≠ ' ' := by
      rintro rfl
      obtain ⟨d, hmem, hd⟩ := h
      rw [List.dropWhile_eq_nil_iff] at hspaces
      rcases List.mem_append.mp hmem with hbefore | hlast
      · exact hd (of_decide_eq_true (hspaces d hbefore))
      · exact hd (List.mem_singleton.mp hlast)
    simp [hspaces, hc]
  · rw [if_neg (by simpa using hspaces)]

theorem byteLength_unindented (before : List Char) :
    byteLength before - (before.length - (unindented before).length) =
      byteLength (unindented before) := by
  have hspaces : byteLength (before.takeWhile (· = ' ')) =
      (before.takeWhile (· = ' ')).length := by
    rw [Text.byteLength_eq_length_iff]
    intro d hmem
    obtain rfl : d = ' ' := by simpa using List.mem_takeWhile_imp hmem
    rfl
  have hbytes := Text.byteLength_append (before.takeWhile (· = ' ')) (unindented before)
  have hlength : (before.takeWhile (· = ' ') ++ unindented before).length =
      (before.takeWhile (· = ' ')).length + (unindented before).length := List.length_append
  rw [unindented, List.takeWhile_append_dropWhile, ← unindented] at hbytes hlength
  omega

theorem length_sub_unindented (before rest : List Char) :
    (before ++ rest).length - (unindented before ++ rest).length =
      before.length - (unindented before).length := by
  rw [List.length_append, List.length_append, Nat.add_sub_add_right]

end Indentation

/-- A character of a source that the excerpt of its line shows: it goes neither with the indentation
of the line nor with the white space at the end. -/
structure ShownAt (source : String) (offset : Nat) (above before : List Char) (c : Char)
    (after behind : List Char) : Prop where
  cut : LineCut source.toList above (before ++ c :: after) behind
  offset_eq : offset = byteLength above + byteLength before
  indented : ∃ d ∈ before ++ [c], d ≠ ' '
  kept : ∃ d ∈ c :: after, Text.isBlank d = false

def shownBefore (above before : List Char) : List Char :=
  label (above.count '\n' + 1) ++ unindented before

theorem length_shownBefore (above before : List Char) :
    (shownBefore above before).length =
      (margin (above.count '\n' + 1) ++ [' ']).length + (unindented before).length := by
  rw [shownBefore, List.length_append, length_label]

/-- In the last two lines of an output, a character is shown behind what is before it, and the caret
below is some columns further to the right. -/
structure MarksBeside (output front : List Char) (c : Char) (columns : Nat) : Prop where
  shows : ∃ line, lineAboveLast? output = some line ∧ front ++ [c] <+: line
  caret : caret? output = some (front.length + columns)

namespace ShownAt

variable {source : String} {above before after behind : List Char} {c : Char}

theorem lineAt?_eq_some {offset : UInt32}
    (h : ShownAt source offset.toNat above before c after behind) :
    lineAt? source offset = some ⟨above.count '\n' + 1,
      before ++ c :: after ++ behind.take 1, byteLength before⟩ := by
  have hoffset := h.offset_eq
  have hstop : offset.toNat ≤ byteLength above + byteLength (before ++ c :: after) := by
    rw [Text.byteLength_append]
    omega
  rw [LosslessSyntax.lineAt?_eq_some h.cut (by omega) hstop, hoffset, Nat.add_sub_cancel_left]

theorem unindented_line {offset : Nat} (h : ShownAt source offset above before c after behind) :
    unindented (before ++ c :: after ++ behind.take 1) =
      unindented before ++ c :: after ++ behind.take 1 := by
  rw [List.append_assoc, List.cons_append, unindented_append h.indented, List.append_assoc,
    List.cons_append]

theorem break_notMem_shown {offset : Nat} (h : ShownAt source offset above before c after behind) :
    '\n' ∉ label (above.count '\n' + 1) ++
      Text.trimEnd (unindented before ++ c :: after ++ behind.take 1) := by
  have hshown : '\n' ∉ unindented before ++ c :: after := by
    have hline := h.cut.unbroken
    rw [List.mem_append, not_or] at hline ⊢
    exact ⟨fun hmem => hline.1 ((unindented_suffix before).mem hmem), hline.2⟩
  have hends : behind.take 1 = [] ∨ behind.take 1 = ['\n'] := by
    rcases h.cut.ends with rfl | hhead
    · exact .inl rfl
    · obtain ⟨rest, rfl⟩ := List.head?_eq_some_iff.mp hhead
      exact .inr rfl
  rw [List.mem_append, not_or]
  exact ⟨break_notMem_label _, Text.break_notMem_trimEnd hshown hends⟩

theorem prefix_shown {offset : Nat} (h : ShownAt source offset above before c after behind) :
    shownBefore above before ++ [c] <+: label (above.count '\n' + 1) ++
      Text.trimEnd (unindented before ++ c :: after ++ behind.take 1) := by
  have hkept : ∃ d ∈ c :: (after ++ behind.take 1), Text.isBlank d = false := by
    obtain ⟨d, hmem, hblank⟩ := h.kept
    exact ⟨d, List.mem_append_left _ hmem, hblank⟩
  rw [shownBefore, List.append_assoc, List.append_assoc, List.cons_append,
    List.prefix_append_right_inj]
  exact Text.prefix_trimEnd _ hkept

theorem toList_render {diagnostic : Diagnostic} (file : String)
    (h : ShownAt source diagnostic.span.start.toNat above before c after behind) :
    ∃ top upper, (top = [] ∨ top.getLast? = some '\n') ∧ '\n' ∉ upper ∧
      shownBefore above before ++ [c] <+: upper ∧
      (diagnostic.render source file).toList = top ++ (upper ++ '\n' ::
        (margin (above.count '\n' + 1) ++ [' '] ++
          List.replicate (byteLength (unindented before)) '-' ++ ['^'] ++ ['\n'])) := by
  refine ⟨(diagnostic.headline ++ "-> " ++ file ++ "\n").toList ++
    (margin (above.count '\n' + 1) ++ ['\n']), _, ?_, h.break_notMem_shown, h.prefix_shown, ?_⟩
  · rw [← List.append_assoc, List.getLast?_concat]
    exact .inr rfl
  · have hhidden : (before ++ c :: after ++ behind.take 1).length -
        (unindented before ++ c :: after ++ behind.take 1).length =
          before.length - (unindented before).length := by
      rw [List.append_assoc, List.append_assoc, length_sub_unindented]
    rw [render, h.lineAt?_eq_some]
    simp only [String.toList_append, toList_excerpt, h.unindented_line, hhidden,
      byteLength_unindented]
    simp only [List.append_assoc]

theorem marksBeside_render {diagnostic : Diagnostic} (file : String)
    (h : ShownAt source diagnostic.span.start.toNat above before c after behind) :
    MarksBeside (diagnostic.render source file).toList (shownBefore above before) c
      (byteLength (unindented before) - (unindented before).length) := by
  obtain ⟨top, upper, htop, hupper, hfront, houtput⟩ := h.toList_render file
  have hle := Text.length_le_byteLength (unindented before)
  rw [houtput]
  constructor
  case shows =>
    exact ⟨_, lineAboveLast?_twoLines htop hupper (by simp [margin]),
      hfront.trans (List.prefix_append _ _)⟩
  case caret =>
    rw [caret?_twoLines htop hupper (by simp [margin]) (by simp [margin]), List.length_append,
      List.length_replicate, length_shownBefore, Nat.add_assoc, Nat.add_sub_cancel' hle]

end ShownAt

/-- The caret stands below the character that a diagnostic is about exactly if each character shown
before it on its line takes one byte. Else it is too far to the right, by as many columns as these
characters take bytes beyond the first. -/
theorem render_marksBeside {diagnostic : Diagnostic} {source : String} (file : String)
    {above before after behind : List Char} {c : Char}
    (h : ShownAt source diagnostic.span.start.toNat above before c after behind) :
    MarksBeside (diagnostic.render source file).toList (shownBefore above before) c
        (byteLength (unindented before) - (unindented before).length) ∧
      (MarksBeside (diagnostic.render source file).toList (shownBefore above before) c 0 ↔
        ∀ d ∈ unindented before, d.utf8Size = 1) := by
  have hmarks := h.marksBeside_render file
  have hle := Text.length_le_byteLength (unindented before)
  refine ⟨hmarks, ?_⟩
  rw [← Text.byteLength_eq_length_iff]
  constructor
  · intro hzero
    have hcolumns := Option.some.inj (hmarks.caret.symm.trans hzero.caret)
    omega
  · intro heq
    rwa [heq, Nat.sub_self] at hmarks

/-- An indented line below another one. -/
theorem render_marksBeside_indented :
    ShownAt "x\n  \"é\" \x7d\n" 9 ['x', '\n'] [' ', ' ', '"', 'é', '"', ' '] '}' [] ['\n'] ∧
      MarksBeside ((⟨.unexpectedToken "\x7d", ⟨9, 10⟩⟩ : Diagnostic).render "x\n  \"é\" \x7d\n"
        "main.fl").toList (shownBefore ['x', '\n'] [' ', ' ', '"', 'é', '"', ' ']) '}' 1 := by
  have hshown : ShownAt "x\n  \"é\" \x7d\n" 9 ['x', '\n'] [' ', ' ', '"', 'é', '"', ' '] '}' []
      ['\n'] := {
    cut := ⟨by decide, .inr rfl, by decide, .inr rfl⟩
    offset_eq := by decide
    indented := ⟨'"', by decide, by decide⟩
    kept := ⟨'}', by decide, by decide⟩ }
  exact ⟨hshown, (render_marksBeside "main.fl" hshown).1⟩

/-- A letter of two bytes in a string: the caret stands behind the character that it is about. -/
theorem render_marksBeside_letter :
    ShownAt "const a = \"é\" \x7d" 15 [] "const a = \"é\" ".toList '}' [] [] ∧
      (∀ d ∈ "const a = \"é\" ".toList, 0x20 ≤ d.toNat ∧ (d.toNat < 0x7F ∨ 0xA0 ≤ d.toNat)) ∧
      ¬MarksBeside ((⟨.expectedToken "item" "\x7d", ⟨15, 16⟩⟩ : Diagnostic).render
        "const a = \"é\" \x7d" "main.fl").toList (shownBefore [] "const a = \"é\" ".toList) '}' 0 := by
  have hplain : "const a = \"é\" ".toList.all fun d =>
      0x20 ≤ d.toNat ∧ (d.toNat < 0x7F ∨ 0xA0 ≤ d.toNat) := by decide
  refine ⟨{
    cut := ⟨by decide, .inl rfl, by decide, .inl rfl⟩
    offset_eq := by decide
    indented := ⟨'c', by decide, by decide⟩
    kept := ⟨'}', by decide, by decide⟩ }, ?_, ?_⟩
  · intro d hmem
    exact of_decide_eq_true (List.all_eq_true.mp hplain d hmem)
  · intro h
    exact absurd h.caret (by decide +kernel)

end Diagnostic

end LosslessSyntax
