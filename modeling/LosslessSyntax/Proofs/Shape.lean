import LosslessSyntax.Node
/-!
Shapes: which sequences of nodes a fragment can be. A shape is a list of pieces, each a run of
nodes that fill the same place. One shape lies within another if whatever fits it fits the other,
and this is decided by computation.
-/
namespace LosslessSyntax

/-- What a parent sees of a child: the slot it fills and its kind. -/
structure Part where
  field : Option Field
  kind : NodeKind
deriving DecidableEq, Repr

def Node.part (node : Node) : Part := ⟨node.field, node.kind⟩

def loose (kinds : List NodeKind) : List Part := kinds.map (⟨none, ·⟩)

def filling (field : Field) (kinds : List NodeKind) : List Part := kinds.map (⟨some field, ·⟩)

@[simp] theorem mem_loose {part : Part} {kinds : List NodeKind} :
    part ∈ loose kinds ↔ part.field = none ∧ part.kind ∈ kinds := by
  obtain ⟨field, kind⟩ := part
  simp only [loose, List.mem_map, Part.mk.injEq]
  constructor
  · rintro ⟨_, hmem, rfl, rfl⟩
    exact ⟨rfl, hmem⟩
  · rintro ⟨rfl, hmem⟩
    exact ⟨kind, hmem, rfl, rfl⟩

@[simp] theorem mem_filling {part : Part} {field : Field} {kinds : List NodeKind} :
    part ∈ filling field kinds ↔ part.field = some field ∧ part.kind ∈ kinds := by
  obtain ⟨slot, kind⟩ := part
  simp only [filling, List.mem_map, Part.mk.injEq]
  constructor
  · rintro ⟨_, hmem, rfl, rfl⟩
    exact ⟨rfl, hmem⟩
  · rintro ⟨rfl, hmem⟩
    exact ⟨kind, hmem, rfl, rfl⟩

/-- A run of nodes: what each may be, and how many there are. -/
structure Piece where
  parts : List Part
  required : Bool
  multiple : Bool
deriving DecidableEq, Repr

abbrev Shape := List Piece

namespace Piece

def one (parts : List Part) : Piece := ⟨parts, true, false⟩

def maybe (parts : List Part) : Piece := ⟨parts, false, false⟩

def many (parts : List Part) : Piece := ⟨parts, false, true⟩

structure Fits (piece : Piece) (parts : List Part) : Prop where
  mem : ∀ part ∈ parts, part ∈ piece.parts
  single : piece.multiple = false → parts.length ≤ 1
  ne_nil : piece.required = true → parts ≠ []

theorem fits_one_iff {allowed parts : List Part} :
    (one allowed).Fits parts ↔ ∃ part ∈ allowed, parts = [part] := by
  constructor
  · intro h
    obtain ⟨part, rest, rfl⟩ := List.exists_cons_of_ne_nil (h.ne_nil rfl)
    have hrest : rest = [] := List.length_eq_zero_iff.mp (by simpa using h.single rfl)
    exact ⟨part, h.mem part (by simp), by rw [hrest]⟩
  · rintro ⟨part, hmem, rfl⟩
    exact ⟨by simpa [one] using hmem, by simp, by simp⟩

theorem fits_nil {piece : Piece} (h : piece.required = false) : piece.Fits [] :=
  ⟨by simp, by simp, by simp [h]⟩

def covers (piece wider : Piece) : Bool :=
  piece.parts.all wider.parts.contains && (piece.required || !wider.required) &&
    (!piece.multiple || wider.multiple)

theorem Fits.of_covers {piece wider : Piece} {parts : List Part} (h : piece.Fits parts)
    (hcovers : piece.covers wider) : wider.Fits parts := by
  simp only [covers, Bool.and_eq_true, List.all_eq_true, List.contains_iff_mem, Bool.or_eq_true,
    Bool.not_eq_true'] at hcovers
  obtain ⟨⟨hparts, hrequired⟩, hmultiple⟩ := hcovers
  refine ⟨fun part hpart => hparts part (h.mem part hpart), fun hw => ?_, fun hw => ?_⟩
  · exact h.single (by simpa [hw] using hmultiple)
  · exact h.ne_nil (by simpa [hw] using hrequired)

end Piece

namespace Shape

/-- A sequence of nodes, cut into one run for each piece. -/
def Fits : Shape → List Part → Prop
  | [], parts => parts = []
  | piece :: shape, parts =>
    ∃ front back, parts = front ++ back ∧ piece.Fits front ∧ Fits shape back

@[simp] theorem fits_nil_iff {parts : List Part} : Fits [] parts ↔ parts = [] := Iff.rfl

theorem fits_append_iff {front back : Shape} {parts : List Part} :
    Fits (front ++ back) parts ↔ ∃ first last, parts = first ++ last ∧ Fits front first ∧
      Fits back last := by
  induction front generalizing parts with
  | nil =>
    constructor
    · intro h
      exact ⟨[], parts, rfl, rfl, h⟩
    · rintro ⟨first, last, rfl, rfl, hlast⟩
      exact hlast
  | cons piece front ih =>
    simp only [List.cons_append, Fits, ih]
    constructor
    · rintro ⟨run, _, rfl, hrun, first, last, rfl, hfirst, hlast⟩
      exact ⟨run ++ first, last, by simp, ⟨run, first, rfl, hrun, hfirst⟩, hlast⟩
    · rintro ⟨_, last, rfl, ⟨run, first, rfl, hrun, hfirst⟩, hlast⟩
      exact ⟨run, first ++ last, by simp, hrun, first, last, rfl, hfirst, hlast⟩

theorem Fits.append {front back : Shape} {first last : List Part} (hfirst : Fits front first)
    (hlast : Fits back last) : Fits (front ++ back) (first ++ last) :=
  fits_append_iff.mpr ⟨first, last, rfl, hfirst, hlast⟩

theorem fits_one {allowed : List Part} {part : Part} (h : part ∈ allowed) :
    Fits [.one allowed] [part] :=
  ⟨[part], [], by simp, Piece.fits_one_iff.mpr ⟨part, h, rfl⟩, rfl⟩

theorem fits_singleton_iff {allowed parts : List Part} :
    Fits [.one allowed] parts ↔ ∃ part ∈ allowed, parts = [part] := by
  constructor
  · rintro ⟨run, back, rfl, hrun, hback⟩
    simpa [fits_nil_iff.mp hback] using Piece.fits_one_iff.mp hrun
  · rintro ⟨part, hmem, rfl⟩
    exact fits_one hmem

theorem fits_cons_one_iff {allowed : List Part} {shape : Shape} {parts : List Part} :
    Fits (.one allowed :: shape) parts ↔
      ∃ part ∈ allowed, ∃ rest, parts = part :: rest ∧ Fits shape rest := by
  constructor
  · rintro ⟨run, rest, rfl, hrun, hrest⟩
    obtain ⟨part, hmem, rfl⟩ := Piece.fits_one_iff.mp hrun
    exact ⟨part, hmem, rest, rfl, hrest⟩
  · rintro ⟨part, hmem, rest, rfl, hrest⟩
    exact ⟨[part], rest, rfl, Piece.fits_one_iff.mpr ⟨part, hmem, rfl⟩, hrest⟩

theorem fits_concat_one_iff {front : Shape} {allowed parts : List Part} :
    Fits (front ++ [.one allowed]) parts ↔ ∃ first, ∃ part ∈ allowed, parts = first ++ [part] ∧
      Fits front first := by
  simp only [fits_append_iff, fits_singleton_iff]
  constructor
  · rintro ⟨first, _, rfl, hfirst, part, hmem, rfl⟩
    exact ⟨first, part, hmem, rfl, hfirst⟩
  · rintro ⟨first, part, hmem, rfl, hfirst⟩
    exact ⟨first, [part], rfl, hfirst, part, hmem, rfl⟩

theorem Fits.nil_of_optional {shape : Shape} (h : shape.all (!·.required)) : Fits shape [] := by
  induction shape with
  | nil => rfl
  | cons piece shape ih =>
    simp only [List.all_cons, Bool.and_eq_true, Bool.not_eq_true'] at h
    exact ⟨[], [], rfl, Piece.fits_nil h.1, ih h.2⟩

/-- Finds a piece of a shape that a run can be part of, with `next` for what follows the run. -/
def absorb (piece : Piece) (next : Shape → Bool) : Shape → Bool
  | [] => false
  | wider :: shape =>
    (piece.covers wider &&
      (next shape || (wider.multiple && next ({ wider with required := false } :: shape)))) ||
    (!wider.required && absorb piece next shape)

/-- Whether all that fits the first shape is found to fit the second. -/
def within : Shape → Shape → Bool
  | [], wider => wider.all (!·.required)
  | piece :: shape, wider => absorb piece (within shape) wider

theorem within_cons {piece wider : Piece} {shape wider' : Shape} (hpiece : piece.covers wider)
    (hshape : shape.within wider') : within (piece :: shape) (wider :: wider') := by
  simp [within, absorb, hpiece, hshape]

theorem Fits.of_absorb {piece : Piece} {next : Shape → Bool} {run rest : List Part}
    (hrun : piece.Fits run) (hnext : ∀ wider, next wider → Fits wider rest) {wider : Shape}
    (h : absorb piece next wider) : Fits wider (run ++ rest) := by
  induction wider with
  | nil => simp [absorb] at h
  | cons first wider ih =>
    simp only [absorb, Bool.or_eq_true, Bool.and_eq_true, Bool.not_eq_true'] at h
    rcases h with ⟨hcovers, hrest | ⟨hmultiple, hrest⟩⟩ | ⟨hoptional, habsorb⟩
    · exact ⟨run, rest, rfl, hrun.of_covers hcovers, hnext _ hrest⟩
    · -- the run and the one after it go into the same piece
      obtain ⟨more, back, rfl, hmore, hback⟩ := hnext _ hrest
      have hfirst := hrun.of_covers hcovers
      refine ⟨run ++ more, back, by simp, ⟨?_, by simp [hmultiple], ?_⟩, hback⟩
      · intro part hpart
        rcases List.mem_append.mp hpart with hpart | hpart
        · exact hfirst.mem part hpart
        · exact hmore.mem part hpart
      · intro hrequired
        simp [hfirst.ne_nil hrequired]
    · exact ⟨[], run ++ rest, rfl, Piece.fits_nil hoptional, ih habsorb⟩

theorem Fits.of_within {shape wider : Shape} {parts : List Part} (hfits : Fits shape parts)
    (h : within shape wider) : Fits wider parts := by
  induction shape generalizing wider parts with
  | nil =>
    rw [fits_nil_iff] at hfits
    exact hfits ▸ Fits.nil_of_optional h
  | cons piece shape ih =>
    obtain ⟨run, rest, rfl, hrun, hrest⟩ := hfits
    exact Fits.of_absorb hrun (fun _ hwider => ih hrest hwider) h

theorem Fits.ne_nil {shape : Shape} {parts : List Part} (hfits : Fits shape parts)
    (h : shape.any (·.required)) : parts ≠ [] := by
  induction shape generalizing parts with
  | nil => simp at h
  | cons piece shape ih =>
    obtain ⟨run, rest, rfl, hrun, hrest⟩ := hfits
    simp only [List.any_cons, Bool.or_eq_true] at h
    rcases h with h | h
    · simp [hrun.ne_nil h]
    · simp [ih hrest h]

end Shape

end LosslessSyntax
