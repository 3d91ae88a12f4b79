import LosslessSyntax.Proofs.Lexing.Bytes
import LosslessSyntax.Report
/-!
Lines: an offset falls into the line between the line breaks around it. The lookup goes through the
lines one by one and takes the end of the text apart from behind, and both find the same line, also
behind a final line break, in an empty text and inside a character.
-/
namespace LosslessSyntax

open Text (byteLength bytes)

namespace Text

def breakByte : UInt8 := 10

theorem utf8EncodeChar_break : String.utf8EncodeChar '\n' = [breakByte] := rfl

theorem breakByte_notMem {c : Char} (h : c ≠ '\n') : breakByte ∉ String.utf8EncodeChar c := by
  have hbreak : c.val.toNat ≠ 10 := fun heq => h (Char.ext (UInt32.toNat_inj.mp heq))
  fun_cases String.utf8EncodeChar c
  all_goals
    simp only [List.mem_cons, List.not_mem_nil, or_false, not_or, ← UInt8.toNat_inj, breakByte,
      UInt8.toNat_ofNat', UInt8.reduceToNat]
    omega

theorem count_bytes (text : List Char) : (bytes text).count breakByte = text.count '\n' := by
  induction text with
  | nil => rfl
  | cons c text ih =>
    rw [bytes_cons, List.count_append, ih]
    by_cases hc : c = '\n'
    · rw [hc, utf8EncodeChar_break, List.count_singleton_self, List.count_cons_self, Nat.add_comm]
    · rw [List.count_eq_zero.mpr (breakByte_notMem hc), List.count_cons_of_ne hc, Nat.zero_add]

theorem breakByte_mem_bytes {text : List Char} : breakByte ∈ bytes text ↔ '\n' ∈ text := by
  rw [← List.count_pos_iff, count_bytes, List.count_pos_iff]

def throughBreak : List UInt8 → List UInt8
  | [] => []
  | byte :: rest => if byte = breakByte then [byte] else byte :: throughBreak rest

theorem throughBreak_append {front : List UInt8} (h : breakByte ∉ front) (back : List UInt8) :
    throughBreak (front ++ back) = front ++ throughBreak back := by
  induction front with
  | nil => rfl
  | cons byte front ih =>
    obtain ⟨hbyte, hfront⟩ := List.ne_and_not_mem_of_not_mem_cons h
    rw [List.cons_append, throughBreak, if_neg hbyte.symm, ih hfront, List.cons_append]

end Text

/-- A text with one of its lines: what is above the line, the line without its line break, and what
is behind it. -/
structure LineCut (text above line behind : List Char) : Prop where
  text_eq : text = above ++ (line ++ behind)
  begins : above = [] ∨ above.getLast? = some '\n'
  unbroken : '\n' ∉ line
  ends : behind = [] ∨ behind.head? = some '\n'

theorem flatten_splitLines (text : List Char) : (splitLines text).flatten = text := by
  fun_induction splitLines text <;> simp_all

theorem splitLines_eq_nil_iff {text : List Char} : splitLines text = [] ↔ text = [] := by
  constructor
  · intro h
    rw [← flatten_splitLines text, h, List.flatten_nil]
  · rintro rfl
    rfl

theorem getLast?_of_cons {c : Char} {above : List Char}
    (h : c :: above = [] ∨ (c :: above).getLast? = some '\n') :
    above = [] ∧ c = '\n' ∨ above ≠ [] ∧ above.getLast? = some '\n' := by
  cases above <;> simpa using h

theorem splitLines_append {above : List Char} (h : above = [] ∨ above.getLast? = some '\n')
    (rest : List Char) : splitLines (above ++ rest) = splitLines above ++ splitLines rest := by
  induction above with
  | nil => rfl
  | cons c above ih =>
    rcases getLast?_of_cons h with ⟨rfl, rfl⟩ | ⟨hne, hlast⟩
    · simp [splitLines]
    · have hlines := mt splitLines_eq_nil_iff.mp hne
      rw [List.cons_append, splitLines, splitLines, ih (.inr hlast)]
      by_cases hc : c = '\n'
      · simp [hc]
      · obtain ⟨line, lines, heq⟩ := List.exists_cons_of_ne_nil hlines
        simp [hc, heq]

theorem length_splitLines {above : List Char} (h : above = [] ∨ above.getLast? = some '\n') :
    (splitLines above).length = above.count '\n' := by
  induction above with
  | nil => rfl
  | cons c above ih =>
    rcases getLast?_of_cons h with ⟨rfl, rfl⟩ | ⟨hne, hlast⟩
    · rfl
    · have hlines := mt splitLines_eq_nil_iff.mp hne
      have hcount := ih (.inr hlast)
      rw [splitLines]
      by_cases hc : c = '\n'
      · simp [hc, hcount]
      · obtain ⟨line, lines, heq⟩ := List.exists_cons_of_ne_nil hlines
        rw [heq] at hcount
        simp [hc, heq, ← hcount]

theorem splitLines_line {line behind : List Char} (hline : '\n' ∉ line)
    (hbehind : behind = [] ∨ behind.head? = some '\n') (hne : line ++ behind ≠ []) :
    splitLines (line ++ behind) = (line ++ behind.take 1) :: splitLines (behind.drop 1) := by
  induction line with
  | nil =>
    rcases hbehind with rfl | hhead
    · exact absurd rfl hne
    · obtain ⟨rest, rfl⟩ := List.head?_eq_some_iff.mp hhead
      simp [splitLines]
  | cons c line ih =>
    obtain ⟨hc, hrest⟩ := List.ne_and_not_mem_of_not_mem_cons hline
    rw [List.cons_append, splitLines, if_neg hc.symm]
    by_cases hempty : line ++ behind = []
    · obtain ⟨rfl, rfl⟩ := List.append_eq_nil_iff.mp hempty
      rfl
    · rw [ih hrest hempty]
      rfl

section Lookup

variable {number start offset : Nat} {line : List Char} {lines : List (List Char)}

theorem locateIn_cons_of_lt (hstart : start ≤ offset) (hstop : offset < start + byteLength line) :
    locateIn number start offset (line :: lines) = some ⟨number, line, offset - start⟩ :=
  if_pos ⟨hstart, hstop⟩

theorem locateIn_append {front : List (List Char)}
    (h : start + byteLength front.flatten ≤ offset) :
    locateIn number start offset (front ++ lines) =
      locateIn (number + front.length) (start + byteLength front.flatten) offset lines := by
  induction front generalizing number start with
  | nil => rfl
  | cons line front ih =>
    rw [List.flatten_cons, Text.byteLength_append, ← Nat.add_assoc] at h ⊢
    rw [List.cons_append, locateIn, if_neg (by omega), ih h, List.length_cons]
    congr 1
    omega

theorem locateIn_eq_none (h : start + byteLength lines.flatten ≤ offset) :
    locateIn number start offset lines = none := by
  rw [← List.append_nil lines, locateIn_append h]
  rfl

end Lookup

theorem splitLastLine_append {above line : List Char}
    (habove : above = [] ∨ above.getLast? = some '\n') (hline : '\n' ∉ line) :
    splitLastLine (above ++ line) = (above, line) := by
  have hplain : ∀ c ∈ line.reverse, decide (c ≠ '\n') = true := by
    intro c hc
    rw [List.mem_reverse] at hc
    exact decide_eq_true (ne_of_mem_of_not_mem hc hline)
  have hend : above.reverse.head?.all (fun c => !decide (c ≠ '\n')) = true := by
    rcases habove with rfl | hlast
    · rfl
    · rw [List.head?_reverse, hlast]
      rfl
  rw [splitLastLine, List.reverse_append, List.dropWhile_append_of_pos hplain,
    List.takeWhile_append_of_pos hplain]
  cases hreverse : above.reverse with
  | nil => simp_all
  | cons c rest => simp_all

theorem locateIn_splitLines {above : List Char} {offset : Nat}
    (habove : above = [] ∨ above.getLast? = some '\n') (hstart : byteLength above ≤ offset)
    (rest : List Char) :
    locateIn 1 0 offset (splitLines (above ++ rest)) =
      locateIn (above.count '\n' + 1) (byteLength above) offset (splitLines rest) := by
  have hpassed : 0 + byteLength (splitLines above).flatten ≤ offset := by
    rwa [flatten_splitLines, Nat.zero_add]
  rw [splitLines_append habove, locateIn_append hpassed, flatten_splitLines,
    length_splitLines habove, Nat.zero_add, Nat.add_comm]

theorem lineAt?_eq_some {source : String} {above line behind : List Char} {offset : UInt32}
    (hcut : LineCut source.toList above line behind) (hstart : byteLength above ≤ offset.toNat)
    (hstop : offset.toNat ≤ byteLength above + byteLength line) :
    lineAt? source offset =
      some ⟨above.count '\n' + 1, line ++ behind.take 1, offset.toNat - byteLength above⟩ := by
  rw [lineAt?, hcut.text_eq]
  simp only [locateIn_splitLines hcut.begins hstart]
  by_cases hlast : offset.toNat < byteLength above + byteLength (line ++ behind.take 1)
  · have hne : line ++ behind ≠ [] := by
      intro hempty
      obtain ⟨rfl, rfl⟩ := List.append_eq_nil_iff.mp hempty
      exact absurd hlast (Nat.not_lt.mpr hstart)
    rw [splitLines_line hcut.unbroken hcut.ends hne, locateIn_cons_of_lt hstart hlast]
  · have hempty : behind = [] := by
      by_contra hne
      have hpos : 0 < byteLength (behind.take 1) := Text.byteLength_pos (by simpa using hne)
      rw [Text.byteLength_append] at hlast
      omega
    subst hempty
    simp only [List.take_nil, List.append_nil] at hlast ⊢
    have hend : offset.toNat = byteLength (above ++ line) := by
      rw [Text.byteLength_append]
      omega
    have hpassed : byteLength above + byteLength (splitLines line).flatten ≤ offset.toNat := by
      rw [flatten_splitLines]
      exact Nat.le_of_not_lt hlast
    simp only [locateIn_eq_none hpassed, locateEnd, splitLastLine_append hcut.begins hcut.unbroken,
      ← hend, if_true]

namespace LineCut

variable {text above line behind : List Char} {c : Char}

theorem cons_line (hcut : LineCut text [] line behind) (hc : c ≠ '\n') :
    LineCut (c :: text) [] (c :: line) behind where
  text_eq := congrArg (c :: ·) hcut.text_eq
  begins := .inl rfl
  unbroken := List.not_mem_cons_of_ne_of_not_mem hc.symm hcut.unbroken
  ends := hcut.ends

theorem cons_above (hcut : LineCut text above line behind) (hc : above = [] → c = '\n') :
    LineCut (c :: text) (c :: above) line behind where
  text_eq := congrArg (c :: ·) hcut.text_eq
  begins := by
    right
    rcases hcut.begins with rfl | hlast
    · rw [hc rfl]
      rfl
    · simp [List.getLast?_cons, hlast]
  unbroken := hcut.unbroken
  ends := hcut.ends

theorem of_break (text : List Char) : LineCut ('\n' :: text) [] [] ('\n' :: text) where
  text_eq := rfl
  begins := .inl rfl
  unbroken := List.not_mem_nil
  ends := .inr rfl

end LineCut

theorem exists_lineCut {text : List Char} {offset : Nat} (h : offset ≤ byteLength text) :
    ∃ above line behind, LineCut text above line behind ∧ byteLength above ≤ offset ∧
      offset ≤ byteLength above + byteLength line := by
  induction text generalizing offset with
  | nil =>
    exact ⟨[], [], [], ⟨rfl, .inl rfl, List.not_mem_nil, .inl rfl⟩, Nat.zero_le _, h⟩
  | cons c text ih =>
    rw [Text.byteLength_cons] at h
    have hoffset : offset - c.utf8Size ≤ byteLength text := by omega
    obtain ⟨above, line, behind, hcut, hstart, hstop⟩ := ih hoffset
    by_cases hfirst : above = [] ∧ c ≠ '\n'
    · obtain ⟨rfl, hc⟩ := hfirst
      refine ⟨[], c :: line, behind, hcut.cons_line hc, Nat.zero_le _, ?_⟩
      simp only [Text.byteLength_nil, Text.byteLength_cons] at hstop ⊢
      omega
    have hbreak : above = [] → c = '\n' := not_and_not_right.mp hfirst
    by_cases hbehind : c.utf8Size ≤ offset
    · refine ⟨c :: above, line, behind, hcut.cons_above hbreak, ?_, ?_⟩
      all_goals
        rw [Text.byteLength_cons]
        omega
    · -- the offset is that of a line break, and nothing else is on its line
      have habove : above = [] := by
        by_contra hne
        have hpos := Text.byteLength_pos hne
        omega
      obtain rfl := hbreak habove
      have hsize : '\n'.utf8Size = 1 := rfl
      refine ⟨[], [], '\n' :: text, LineCut.of_break text, Nat.zero_le _, ?_⟩
      simp only [Text.byteLength_nil]
      omega

theorem isSome_lineAt? {source : String} {offset : UInt32}
    (h : offset.toNat ≤ byteLength source.toList) : (lineAt? source offset).isSome := by
  obtain ⟨above, line, behind, hcut, hstart, hstop⟩ := exists_lineCut h
  rw [lineAt?_eq_some hcut hstart hstop]
  rfl

theorem lineAt?_eq_none {source : String} {offset : UInt32}
    (h : byteLength source.toList < offset.toNat) : lineAt? source offset = none := by
  have hlines : 0 + byteLength (splitLines source.toList).flatten ≤ offset.toNat := by
    rw [flatten_splitLines]
    omega
  simp only [lineAt?, locateIn_eq_none hlines, if_neg (Nat.ne_of_gt h)]

/-- What is said of an offset of a source, told from the bytes of the source alone. -/
structure Location.IsAt (location : Location) (source : String) (offset : Nat) : Prop where
  line : location.line = 1 + ((bytes source.toList).take offset).count Text.breakByte
  column : location.column ≤ offset
  text : bytes location.text =
    ((bytes source.toList).take offset).drop (offset - location.column) ++
      Text.throughBreak ((bytes source.toList).drop offset)
  reaches : location.column ≤ byteLength location.text
  unbroken : Text.breakByte ∉ (bytes location.text).take location.column
  begins : offset - location.column = 0 ∨
    (bytes source.toList)[offset - location.column - 1]? = some Text.breakByte

namespace LineCut

variable {source : String} {above line behind : List Char} {offset : Nat}

theorem column_le (hstop : offset ≤ byteLength above + byteLength line) :
    offset - byteLength above ≤ (bytes line).length := by
  rw [Text.length_bytes]
  omega

theorem take_bytes (hcut : LineCut source.toList above line behind)
    (hstart : byteLength above ≤ offset) (hstop : offset ≤ byteLength above + byteLength line) :
    (bytes source.toList).take offset =
      bytes above ++ (bytes line).take (offset - byteLength above) := by
  rw [hcut.text_eq, Text.bytes_append, Text.bytes_append, List.take_append, Text.length_bytes,
    List.take_of_length_le (by rwa [Text.length_bytes]),
    List.take_append_of_le_length (column_le hstop)]

theorem drop_bytes (hcut : LineCut source.toList above line behind)
    (hstart : byteLength above ≤ offset) (hstop : offset ≤ byteLength above + byteLength line) :
    (bytes source.toList).drop offset =
      (bytes line).drop (offset - byteLength above) ++ bytes behind := by
  rw [hcut.text_eq, Text.bytes_append, Text.bytes_append, List.drop_append, Text.length_bytes,
    List.drop_of_length_le (by rwa [Text.length_bytes]), List.nil_append,
    List.drop_append_of_le_length (column_le hstop)]

theorem throughBreak_behind (hcut : LineCut source.toList above line behind) :
    Text.throughBreak (bytes behind) = bytes (behind.take 1) := by
  rcases hcut.ends with rfl | hhead
  · rfl
  · obtain ⟨rest, rfl⟩ := List.head?_eq_some_iff.mp hhead
    rfl

theorem getElem?_above (hcut : LineCut source.toList above line behind) :
    byteLength above = 0 ∨
      (bytes source.toList)[byteLength above - 1]? = some Text.breakByte := by
  rcases hcut.begins with rfl | hlast
  · exact .inl rfl
  · obtain ⟨front, rfl⟩ := List.getLast?_eq_some_iff.mp hlast
    right
    have hlength : byteLength (front ++ ['\n']) - 1 = (bytes front).length := by
      rw [Text.byteLength_append, Text.length_bytes]
      rfl
    rw [hcut.text_eq, Text.bytes_append, Text.bytes_append, hlength, List.append_assoc,
      List.getElem?_append_right (Nat.le_refl _), Nat.sub_self]
    rfl

theorem isAt (hcut : LineCut source.toList above line behind)
    (hstart : byteLength above ≤ offset) (hstop : offset ≤ byteLength above + byteLength line) :
    Location.IsAt ⟨above.count '\n' + 1, line ++ behind.take 1, offset - byteLength above⟩ source
      offset := by
  have hline : Text.breakByte ∉ bytes line := mt Text.breakByte_mem_bytes.mp hcut.unbroken
  have hcolumn : offset - (offset - byteLength above) = byteLength above := Nat.sub_sub_self hstart
  constructor
  case line =>
    have hfront : Text.breakByte ∉ (bytes line).take (offset - byteLength above) :=
      fun hmem => hline (List.mem_of_mem_take hmem)
    rw [hcut.take_bytes hstart hstop, List.count_append, List.count_eq_zero.mpr hfront,
      Text.count_bytes, Nat.add_comm, Nat.add_zero]
  case column => exact Nat.sub_le _ _
  case text =>
    have hrest : Text.breakByte ∉ (bytes line).drop (offset - byteLength above) :=
      fun hmem => hline (List.mem_of_mem_drop hmem)
    calc bytes (line ++ behind.take 1)
      _ = bytes line ++ bytes (behind.take 1) := Text.bytes_append _ _
      _ = (bytes line).take (offset - byteLength above) ++
          ((bytes line).drop (offset - byteLength above) ++ bytes (behind.take 1)) := by
        rw [← List.append_assoc, List.take_append_drop]
      _ = _ := by
        rw [hcut.take_bytes hstart hstop, hcut.drop_bytes hstart hstop, hcolumn,
          Text.throughBreak_append hrest, hcut.throughBreak_behind, ← Text.length_bytes above,
          List.drop_left]
  case reaches =>
    calc offset - byteLength above
      _ ≤ byteLength line := Nat.sub_le_iff_le_add'.mpr hstop
      _ ≤ byteLength (line ++ behind.take 1) := by
        rw [Text.byteLength_append]
        exact Nat.le_add_right _ _
  case unbroken =>
    rw [Text.bytes_append, List.take_append_of_le_length (column_le hstop)]
    exact fun hmem => hline (List.mem_of_mem_take hmem)
  case begins =>
    rw [hcolumn]
    exact hcut.getElem?_above

end LineCut

/-- There is a line exactly at the offsets up to the end of a source, that of a line break, of the
end and those inside characters among them. Its number is that of the line breaks before the offset
and one, its text begins behind the last of them and goes on to the next with that, and the column
says how many bytes of the line are before the offset. -/
theorem lineAt?_isAt (source : String) (offset : UInt32) :
    (lineAt? source offset = none ↔ byteLength source.toList < offset.toNat) ∧
      ∀ location, lineAt? source offset = some location →
        location.IsAt source offset.toNat := by
  by_cases h : byteLength source.toList < offset.toNat
  · have hnone := lineAt?_eq_none h
    refine ⟨iff_of_true hnone h, fun location hlocation => ?_⟩
    rw [hnone] at hlocation
    contradiction
  · obtain ⟨above, line, behind, hcut, hstart, hstop⟩ := exists_lineCut (Nat.le_of_not_lt h)
    have hsome := lineAt?_eq_some hcut hstart hstop
    refine ⟨iff_of_false (by simp [hsome]) h, fun location hlocation => ?_⟩
    obtain rfl := Option.some.inj (hsome.symm.trans hlocation)
    exact hcut.isAt hstart hstop

/-- Inside a character. -/
theorem lineAt?_isAt_inside : lineAt? "a\né\n" 3 = some ⟨2, ['é', '\n'], 1⟩ ∧
    Location.IsAt ⟨2, ['é', '\n'], 1⟩ "a\né\n" 3 := by
  have hinside : lineAt? "a\né\n" 3 = some ⟨2, ['é', '\n'], 1⟩ := by decide
  exact ⟨hinside, (lineAt?_isAt _ _).2 _ hinside⟩

/-- Behind the last line break. -/
example : lineAt? "a\né\n" 5 = some ⟨3, [], 0⟩ := by decide

end LosslessSyntax
