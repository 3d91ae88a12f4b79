import LosslessSyntax.Text.Offset
/-!
Spans: half-open byte ranges of a source. Offsets are 32-bit words, so a source is at most
`maxSourceLength` bytes long and moving a span wraps around.
-/
namespace LosslessSyntax

/-- The longest source, in bytes, whose offsets all fit a span. -/
def maxSourceLength : Nat := 4294967295

/-- The bytes from `start` up to, and without, `stop`. -/
structure Span where
  start : UInt32
  stop : UInt32
deriving DecidableEq, Repr, Inhabited

namespace Span

/-- Offsets beyond a word lose their high bits. -/
def ofOffsets (start stop : Nat) : Span :=
  ⟨UInt32.ofNat start, UInt32.ofNat stop⟩

def emptyAt (offset : UInt32) : Span := ⟨offset, offset⟩

def length (span : Span) : UInt32 := span.stop - span.start

def isEmpty (span : Span) : Bool := span.start == span.stop

def cover (a b : Span) : Span := ⟨min a.start b.start, max a.stop b.stop⟩

/-- A word moved by a signed distance, modulo its width. -/
def moveOffset (offset : UInt32) (distance : Int) : UInt32 :=
  UInt32.ofInt (offset.toNat + distance)

def shifted (span : Span) (distance : Int) : Span :=
  ⟨moveOffset span.start distance, moveOffset span.stop distance⟩

/-- What a text has under a span, which is nothing where the span is out of range or cuts a
character. -/
def select (span : Span) (text : List Char) : List Char :=
  (Text.slice? span.start.toNat span.stop.toNat text).getD []

def text (span : Span) (source : String) : String := String.ofList (span.select source.toList)

@[simp] theorem isEmpty_emptyAt (offset : UInt32) : (emptyAt offset).isEmpty := by
  simp [emptyAt, isEmpty]

@[simp] theorem moveOffset_zero (offset : UInt32) : moveOffset offset 0 = offset := by
  apply UInt32.toNat_inj.mp
  have h := offset.toNat_lt
  simp only [moveOffset, UInt32.ofInt, Int.add_zero, UInt32.toNat_ofNat']
  omega

@[simp] theorem shifted_zero (span : Span) : span.shifted 0 = span := by
  simp [shifted]

end Span

end LosslessSyntax
