import LosslessSyntax.Text.Offset
/-!
Edits of a text, and the one range that a batch of them has changed. Everything before the range
and after it is the same in the old and in the new text.
-/
namespace LosslessSyntax

/-- The `removed` bytes at `start` are replaced by `inserted` bytes, in the text as earlier edits
of the batch left it. -/
structure Edit where
  start : Nat
  removed : Nat
  inserted : Nat
deriving DecidableEq, Repr

/-- The bytes from `start` to `oldEnd` of the old text became those from `start` to `newEnd` of
the new. -/
structure ChangedRange where
  start : Nat
  oldEnd : Nat
  newEnd : Nat
deriving DecidableEq, Repr

namespace ChangedRange

def unchanged (length : Nat) : ChangedRange := ⟨length, length, length⟩

def ofEdit (edit : Edit) : ChangedRange :=
  ⟨edit.start, edit.start + edit.removed, edit.start + edit.inserted⟩

def extend (range : ChangedRange) (edit : Edit) : ChangedRange :=
  let editEnd := edit.start + edit.removed
  ⟨min range.start edit.start, range.oldEnd + (editEnd - range.newEnd),
    max range.newEnd editEnd - edit.removed + edit.inserted⟩

/-- The range of edits that follow those of `range`, on a text that is now `length` bytes long. -/
def extendAll? : Option ChangedRange → Nat → List Edit → Option (Option ChangedRange)
  | range, _, [] => some range
  | range, length, edit :: edits =>
    if length < edit.start + edit.removed then none
    else
      let next := match range with
        | none => ofEdit edit
        | some range => range.extend edit
      extendAll? (some next) (length - edit.removed + edit.inserted) edits

/-- Merges edits made one after the other to a text of `length` bytes. There is no range if one of
them reaches past the end of the text that it applies to. -/
def ofEdits? (length : Nat) (edits : List Edit) : Option ChangedRange :=
  (extendAll? none length edits).map (·.getD (unchanged length))

/-- By how many bytes the new text is longer, as a 64-bit word with a sign. -/
def delta (range : ChangedRange) : Int :=
  Int.bmod ((range.newEnd : Int) - range.oldEnd) 18446744073709551616

/-- Whether two texts differ in the range only. -/
def Agrees (range : ChangedRange) (old new : List Char) : Prop :=
  range.start ≤ range.oldEnd ∧ range.start ≤ range.newEnd ∧
    range.oldEnd ≤ Text.byteLength old ∧ range.newEnd ≤ Text.byteLength new ∧
    Text.byteLength old - range.oldEnd = Text.byteLength new - range.newEnd ∧
    (Text.bytes old).take range.start = (Text.bytes new).take range.start ∧
    (Text.bytes old).drop range.oldEnd = (Text.bytes new).drop range.newEnd

instance (range : ChangedRange) (old new : List Char) : Decidable (range.Agrees old new) := by
  unfold Agrees
  infer_instance

def agrees (range : ChangedRange) (old new : String) : Bool :=
  decide (range.Agrees old.toList new.toList)

/-- The offset in the old text of an offset in the new. Inside the range there is none. -/
def toOld? (range : ChangedRange) (offset : Nat) : Option Nat :=
  if offset < range.start then some offset
  else if range.newEnd ≤ offset then some (offset - range.newEnd + range.oldEnd)
  else none

end ChangedRange

end LosslessSyntax
