import LosslessSyntax.Precedence
import Mathlib.Data.List.Chain
/-!
Validation of precedence tables: a table passes exactly if it has a level for each required name and
these levels bind tighter and tighter. Where they stand in the table does not matter: a table
that is upside down passes too.
-/
namespace LosslessSyntax.Precedence

variable {table levels : List PrecedenceLevel} {previous : Option PrecedenceLevel}
  {level looser : PrecedenceLevel} {name : String} {names : List String}

def levelNamed? (table : List PrecedenceLevel) (name : String) : Option PrecedenceLevel :=
  table.find? (·.name = name)

def Looser (a b : PrecedenceLevel) : Prop := a.power < b.power

instance (a b : PrecedenceLevel) : Decidable (Looser a b) :=
  inferInstanceAs (Decidable (a.power < b.power))

instance : IsTrans PrecedenceLevel Looser := ⟨fun _ _ _ h h' => Nat.lt_trans h h'⟩

/-- The first levels of a table with these names are there, and each binds tighter than all before
it. -/
structure Rises (table : List PrecedenceLevel) (names : List String)
    (levels : List PrecedenceLevel) : Prop where
  found : names.map (levelNamed? table) = levels.map some
  rising : levels.Pairwise Looser

theorem validateNames_missing (h : levelNamed? table name = none) :
    validateNames table previous (name :: names) =
      .error ⟨.missingPrecedenceLevel name, .emptyAt 0⟩ := by
  rw [validateNames, ← levelNamed?, h]

theorem validateNames_tighter (h : levelNamed? table name = some level)
    (htighter : ∀ looser ∈ previous, Looser looser level) :
    validateNames table previous (name :: names) = validateNames table (some level) names := by
  rw [validateNames, ← levelNamed?, h]
  cases previous with
  | none => rfl
  | some looser => exact if_neg (Nat.not_le.mpr (htighter looser rfl))

theorem validateNames_loose (h : levelNamed? table name = some level)
    (hloose : ¬Looser looser level) :
    validateNames table (some looser) (name :: names) = .error (.internal ("precedence level `" ++
      level.name ++ "` does not bind tighter than `" ++ looser.name ++ "`")) := by
  rw [validateNames, ← levelNamed?, h]
  exact if_pos (Nat.not_lt.mp hloose)

theorem validateNames_append (hfound : names.map (levelNamed? table) = levels.map some)
    (hchain : (previous.toList ++ levels).IsChain Looser) (rest : List String) :
    validateNames table previous (names ++ rest) =
      validateNames table (levels.getLast?.or previous) rest := by
  induction names generalizing previous levels with
  | nil =>
    obtain rfl : levels = [] := List.map_eq_nil_iff.mp hfound.symm
    rfl
  | cons name names ih =>
    obtain ⟨level, levels, rfl, hlevel, hlevels⟩ := List.map_eq_cons_iff.mp hfound.symm
    have htighter : ∀ looser ∈ previous, Looser looser level := by
      rintro looser rfl
      exact hchain.rel
    have hrest : ((some level).toList ++ levels).IsChain Looser := hchain.right_of_append
    rw [List.cons_append, validateNames_tighter hlevel.symm htighter, ih hlevels.symm hrest]
    cases levels with
    | nil => rfl
    | cons next levels => simp [List.getLast?_cons]

theorem validateNames_none_append (hfound : names.map (levelNamed? table) = levels.map some)
    (hchain : levels.IsChain Looser) (rest : List String) :
    validateNames table none (names ++ rest) = validateNames table levels.getLast? rest := by
  have hstart : ((none : Option PrecedenceLevel).toList ++ levels).IsChain Looser := hchain
  rw [validateNames_append hfound hstart, Option.or_none]

theorem exists_of_validateNames_eq_ok (h : validateNames table previous names = .ok ()) :
    ∃ levels, names.map (levelNamed? table) = levels.map some ∧
      (previous.toList ++ levels).IsChain Looser := by
  induction names generalizing previous with
  | nil =>
    refine ⟨[], rfl, ?_⟩
    cases previous <;> simp
  | cons name names ih =>
    cases hlevel : levelNamed? table name with
    | none =>
      rw [validateNames_missing hlevel] at h
      contradiction
    | some level =>
      by_cases htighter : ∀ looser ∈ previous, Looser looser level
      · rw [validateNames_tighter hlevel htighter] at h
        obtain ⟨levels, hfound, hchain⟩ := ih h
        refine ⟨level :: levels, by rw [List.map_cons, List.map_cons, hlevel, hfound], ?_⟩
        cases previous with
        | none => exact hchain
        | some looser => exact hchain.cons_cons (htighter looser rfl)
      · obtain ⟨looser, rfl, hloose⟩ : ∃ looser, previous = some looser ∧ ¬Looser looser level := by
          simpa using htighter
        rw [validateNames_loose hlevel hloose] at h
        contradiction

/-- The power of each level is compared with that of the level before it alone, which is enough. -/
theorem exists_rises_iff :
    (∃ levels, Rises table names levels) ↔
      ∃ levels : List PrecedenceLevel,
        names.map (levelNamed? table) = levels.map some ∧ levels.IsChain Looser := by
  simp only [List.isChain_iff_pairwise]
  exact ⟨fun ⟨levels, h⟩ => ⟨levels, h.found, h.rising⟩, fun ⟨levels, h⟩ => ⟨levels, h.1, h.2⟩⟩

/-- A table passes exactly if each required level is there, the first of its name, and binds tighter
than the required levels before it. Where the levels rise up to one that is missing, that one is
reported. -/
theorem validate_rises (table : List PrecedenceLevel) :
    (validate table = .ok () ↔ ∃ levels, Rises table requiredLevels levels) ∧
      ∀ found name rest, requiredLevels = found ++ name :: rest →
        (∃ levels, Rises table found levels) → (∀ level ∈ table, level.name ≠ name) →
          validate table = .error ⟨.missingPrecedenceLevel name, .emptyAt 0⟩ := by
  simp only [exists_rises_iff]
  refine ⟨⟨exists_of_validateNames_eq_ok, ?_⟩, ?_⟩
  · rintro ⟨levels, hfound, hchain⟩
    calc validate table
      _ = validateNames table none (requiredLevels ++ []) := by rw [validate, List.append_nil]
      _ = validateNames table levels.getLast? [] := validateNames_none_append hfound hchain []
      _ = .ok () := rfl
  · rintro found name rest hnames ⟨levels, hfound, hchain⟩ hmissing
    have hnone : levelNamed? table name = none := by
      rw [levelNamed?, List.find?_eq_none]
      intro level hmem
      simpa using hmissing level hmem
    calc validate table
      _ = validateNames table none (found ++ name :: rest) := by rw [validate, hnames]
      _ = validateNames table levels.getLast? (name :: rest) :=
        validateNames_none_append hfound hchain _
      _ = .error ⟨.missingPrecedenceLevel name, .emptyAt 0⟩ := validateNames_missing hnone

/-- A table without ranges. -/
theorem validate_rises_range :
    requiredLevels = requiredLevels.take 5 ++ "range" :: requiredLevels.drop 6 ∧
      (∃ levels, Rises (Precedence.table.eraseIdx 5) (requiredLevels.take 5) levels) ∧
      (∀ level ∈ Precedence.table.eraseIdx 5, level.name ≠ "range") ∧
      validate (Precedence.table.eraseIdx 5) =
        .error ⟨.missingPrecedenceLevel "range", .emptyAt 0⟩ := by
  have hrises : ∃ levels, Rises (Precedence.table.eraseIdx 5) (requiredLevels.take 5) levels :=
    ⟨Precedence.table.take 5, rfl, by decide⟩
  have hmissing : ∀ level ∈ Precedence.table.eraseIdx 5, level.name ≠ "range" := by decide
  exact ⟨rfl, hrises, hmissing, (validate_rises _).2 _ _ _ rfl hrises hmissing⟩

/-- The levels of a table that is upside down rise as they should, but they do not stand in the
order of their names. -/
theorem validate_reverse :
    validate Precedence.table.reverse = .ok () ∧
      ¬(requiredLevels.map fun name =>
        Precedence.table.reverse.findIdx (·.name = name)).Pairwise (· < ·) := by
  decide

end LosslessSyntax.Precedence
