import LosslessSyntax.Proofs.Spans.Covers
import Mathlib.Data.List.Destutter
/-!
The diagnostics of a tree as a path over its tokens. Each step reads a token as a leaf or has an
error stand for some tokens, and appends what the leaf or the error with its leaves reports. Along
such a path only the errors can break the order, and no offset comes up more than twice.
-/
namespace LosslessSyntax

def Diagnostic.Before (first next : Diagnostic) : Prop := first.span.start ≤ next.span.start

instance : DecidableRel Diagnostic.Before :=
  fun first next => inferInstanceAs (Decidable (first.span.start ≤ next.span.start))

def Diagnostic.IsAt (stream : TokenStream) (index : Nat) (diagnostic : Diagnostic) : Prop :=
  diagnostic.span.start = (stream.get index).span.start

def Diagnostic.starts (diagnostics : List Diagnostic) : List UInt32 :=
  diagnostics.map (·.span.start)

@[simp] theorem Diagnostic.starts_nil : starts [] = [] := rfl

@[simp] theorem Diagnostic.starts_cons (diagnostic : Diagnostic) (diagnostics : List Diagnostic) :
    starts (diagnostic :: diagnostics) = diagnostic.span.start :: starts diagnostics := rfl

@[simp] theorem Diagnostic.starts_append (front back : List Diagnostic) :
    starts (front ++ back) = starts front ++ starts back := List.map_append

theorem Diagnostic.count_le_count_starts (diagnostics : List Diagnostic) (diagnostic : Diagnostic) :
    diagnostics.count diagnostic ≤ (starts diagnostics).count diagnostic.span.start :=
  List.count_le_count_map (f := fun diagnostic : Diagnostic => diagnostic.span.start)

namespace TokenStream

def lexical (stream : TokenStream) (index : Nat) : List Diagnostic :=
  (Node.ofToken (stream.get index)).diagnostic.toList

def lexicals (stream : TokenStream) (start stop : Nat) : List Diagnostic :=
  Node.reported ((stream.slice start stop).map Node.ofToken)

end TokenStream

/-- What is reported on the way from one token to another, one run for each leaf or error. An error
stands for the tokens from the one it is reached at up to its end, and its own diagnostic is about
one of these or the one behind them. It stands for no token only where the last token was read as a
leaf. -/
inductive Reports (stream : TokenStream) (start : Nat) (entry : Bool) :
    Nat → Bool → List (List Diagnostic) → Prop where
  | nil (bound : start ≤ stream.body.size) : Reports stream start entry start entry []
  | leaf {stop : Nat} {solid : Bool} {runs : List (List Diagnostic)} {run : List Diagnostic}
      (front : Reports stream start entry stop solid runs) (bound : stop < stream.body.size)
      (lexical : run = [] ∨ run = stream.lexical stop) :
      Reports stream start entry (stop + 1) true (runs ++ [run])
  | error {stop last index : Nat} {solid : Bool} {runs : List (List Diagnostic)}
      {diagnostic : Diagnostic} (front : Reports stream start entry stop solid runs)
      (le : stop ≤ index) (upto : index ≤ last) (bound : last ≤ stream.body.size)
      (about : diagnostic.IsAt stream index) (text : stop < last ∨ solid)
      (regular : index = last → stream.lexical last = []) :
      Reports stream start entry last false
        (runs ++ [diagnostic :: stream.lexicals stop last])

namespace TokenStream

variable {stream : TokenStream} {start stop index : Nat} {diagnostic : Diagnostic}

@[simp] theorem lexicals_self (stream : TokenStream) (start : Nat) :
    stream.lexicals start start = [] := by
  simp [lexicals, slice_self]

theorem lexicals_succ (h : start ≤ stop) :
    stream.lexicals start (stop + 1) = stream.lexicals start stop ++ stream.lexical stop := by
  rw [lexicals, slice_succ stream h, List.map_append, Node.reported_append, List.map_singleton,
    Node.reported_singleton]
  simp [lexicals, lexical, Node.ofToken, Node.leaf]

theorem isAt_of_mem_lexical (h : diagnostic ∈ stream.lexical index) :
    diagnostic.IsAt stream index := by
  simp only [lexical, Node.ofToken, Option.mem_toList] at h
  split at h
  · obtain rfl := Option.some.inj h
    rfl
  · contradiction

theorem exists_of_mem_lexicals (hle : start ≤ stop) (h : diagnostic ∈ stream.lexicals start stop) :
    ∃ index, start ≤ index ∧ index < stop ∧ diagnostic ∈ stream.lexical index := by
  induction stop, hle using Nat.le_induction with
  | base => simp at h
  | succ stop hle ih =>
    rw [lexicals_succ hle, List.mem_append] at h
    rcases h with h | h
    · obtain ⟨index, hstart, hstop, hmem⟩ := ih h
      exact ⟨index, hstart, hstop.trans (Nat.lt_succ_self _), hmem⟩
    · exact ⟨stop, hle, Nat.lt_succ_self _, h⟩

theorem length_lexical_le (stream : TokenStream) (index : Nat) :
    (stream.lexical index).length ≤ 1 := by
  unfold lexical
  cases (Node.ofToken (stream.get index)).diagnostic <;> simp

namespace Ordered

variable (hordered : stream.Ordered)

include hordered

theorem start_strictMono {other : Nat} (hlt : index < other) (hother : other ≤ stream.body.size) :
    (stream.get index).span.start.toNat < (stream.get other).span.start.toNat :=
  (hordered.lt index (by omega)).trans_le (hordered.le index other hlt hother)

theorem start_inj {other : Nat} (hindex : index ≤ stream.body.size)
    (hother : other ≤ stream.body.size)
    (h : (stream.get index).span.start = (stream.get other).span.start) : index = other := by
  rcases Nat.lt_trichotomy index other with hlt | rfl | hlt
  · have := hordered.start_strictMono hlt hother
    rw [h] at this
    exact absurd this (Nat.lt_irrefl _)
  · rfl
  · have := hordered.start_strictMono hlt hindex
    rw [h] at this
    exact absurd this (Nat.lt_irrefl _)

theorem pairwise_lexicals (hle : start ≤ stop) (hstop : stop ≤ stream.body.size) :
    (stream.lexicals start stop).Pairwise fun first next =>
      first.span.start.toNat < next.span.start.toNat := by
  induction stop, hle using Nat.le_induction with
  | base => simp
  | succ stop hle ih =>
    rw [lexicals_succ hle]
    refine List.pairwise_append.mpr ⟨ih (by omega), ?_, fun first hfirst next hnext => ?_⟩
    · have hlength := stream.length_lexical_le stop
      rcases hlexical : stream.lexical stop with _ | ⟨first, _ | ⟨next, rest⟩⟩
      · exact .nil
      · exact List.pairwise_singleton _ _
      · simp [hlexical] at hlength
    · obtain ⟨index, -, hindex, hmem⟩ := exists_of_mem_lexicals hle hfirst
      rw [isAt_of_mem_lexical hmem, isAt_of_mem_lexical hnext]
      exact hordered.start_strictMono hindex (by omega)

theorem pairwise_run (hle : start ≤ stop) (hstop : stop ≤ stream.body.size) :
    (diagnostic :: stream.lexicals start stop).Pairwise Diagnostic.Before ↔
      ∀ next ∈ stream.lexicals start stop, diagnostic.Before next := by
  rw [List.pairwise_cons, and_iff_left]
  exact (hordered.pairwise_lexicals hle hstop).imp fun h => UInt32.le_iff_toNat_le.mpr h.le

theorem nodup_starts_lexicals (hle : start ≤ stop) (hstop : stop ≤ stream.body.size) :
    (Diagnostic.starts (stream.lexicals start stop)).Nodup := by
  refine List.pairwise_map.mpr ((hordered.pairwise_lexicals hle hstop).imp fun hlt heq => ?_)
  rw [heq] at hlt
  exact Nat.lt_irrefl _ hlt

end Ordered

end TokenStream

namespace Reports

variable {stream : TokenStream} {start middle stop : Nat} {entry solid' solid : Bool}
  {runs more : List (List Diagnostic)} {run : List Diagnostic} {diagnostic : Diagnostic}

theorem append (hfront : Reports stream start entry middle solid' runs)
    (hback : Reports stream middle solid' stop solid more) :
    Reports stream start entry stop solid (runs ++ more) := by
  induction hback with
  | nil => simpa using hfront
  | leaf _ bound lexical ih =>
    rw [← List.append_assoc]
    exact .leaf ih bound lexical
  | error _ le upto bound about text regular ih =>
    rw [← List.append_assoc]
    exact .error ih le upto bound about text regular

theorem le (h : Reports stream start entry stop solid runs) : start ≤ stop := by
  induction h with
  | nil => exact le_rfl
  | leaf _ _ _ ih => omega
  | error _ le upto _ _ _ _ ih => omega

theorem bound (h : Reports stream start entry stop solid runs) : stop ≤ stream.body.size := by
  cases h with
  | nil bound => exact bound
  | leaf _ bound => exact bound
  | error _ _ _ bound => exact bound

theorem isAt_of_mem_leaf (h : run = [] ∨ run = stream.lexical stop) (hmem : diagnostic ∈ run) :
    diagnostic.IsAt stream stop := by
  rcases h with rfl | rfl
  · simp at hmem
  · exact TokenStream.isAt_of_mem_lexical hmem

theorem exists_isAt_of_mem_error {own : Diagnostic} {index last : Nat} (hle : stop ≤ index)
    (hupto : index ≤ last) (habout : own.IsAt stream index)
    (hmem : diagnostic ∈ own :: stream.lexicals stop last) :
    ∃ index, stop ≤ index ∧ index ≤ last ∧ diagnostic.IsAt stream index := by
  rcases List.mem_cons.mp hmem with rfl | hmem
  · exact ⟨index, hle, hupto, habout⟩
  · obtain ⟨index, hindex, hlast, hlexical⟩ :=
      TokenStream.exists_of_mem_lexicals (hle.trans hupto) hmem
    exact ⟨index, hindex, hlast.le, TokenStream.isAt_of_mem_lexical hlexical⟩

theorem exists_isAt (h : Reports stream start entry stop solid runs) :
    ∀ diagnostic ∈ runs.flatten, ∃ index, index ≤ stop ∧ diagnostic.IsAt stream index := by
  induction h with
  | nil => simp
  | leaf _ _ lexical ih =>
    intro diagnostic hmem
    rw [List.flatten_append, List.flatten_singleton, List.mem_append] at hmem
    rcases hmem with hmem | hmem
    · obtain ⟨index, hindex, hat⟩ := ih diagnostic hmem
      exact ⟨index, by omega, hat⟩
    · exact ⟨_, Nat.le_succ _, isAt_of_mem_leaf lexical hmem⟩
  | error _ le upto _ about _ _ ih =>
    intro diagnostic hmem
    rw [List.flatten_append, List.flatten_singleton, List.mem_append] at hmem
    rcases hmem with hmem | hmem
    · obtain ⟨index, hindex, hat⟩ := ih diagnostic hmem
      exact ⟨index, by omega, hat⟩
    · obtain ⟨index, -, hindex, hat⟩ := exists_isAt_of_mem_error le upto about hmem
      exact ⟨index, hindex, hat⟩

theorem pairwise_of_regular (h : Reports stream start entry stop solid runs)
    (hregular : ∀ index, stream.lexical index = []) :
    ∀ run ∈ runs, run.Pairwise Diagnostic.Before := by
  have hlexicals {start stop : Nat} (hle : start ≤ stop) : stream.lexicals start stop = [] := by
    refine List.eq_nil_iff_forall_not_mem.mpr fun diagnostic hmem => ?_
    obtain ⟨index, -, -, hlexical⟩ := TokenStream.exists_of_mem_lexicals hle hmem
    simp [hregular index] at hlexical
  induction h with
  | nil => simp
  | leaf _ _ lexical ih =>
    rw [List.forall_mem_append]
    refine ⟨ih, ?_⟩
    rcases lexical with rfl | rfl <;> simp [hregular]
  | error _ le upto _ _ _ _ ih =>
    rw [List.forall_mem_append]
    exact ⟨ih, by simp [hlexicals (le.trans upto)]⟩

section Ordered

variable (hordered : stream.Ordered)

include hordered

theorem pairwise_concat_iff (h : Reports stream start entry stop solid runs)
    (hrun : ∀ diagnostic ∈ run, ∃ index, stop ≤ index ∧ index ≤ stream.body.size ∧
      diagnostic.IsAt stream index) :
    (runs ++ [run]).flatten.Pairwise Diagnostic.Before ↔
      runs.flatten.Pairwise Diagnostic.Before ∧ run.Pairwise Diagnostic.Before := by
  rw [List.flatten_append, List.flatten_singleton, List.pairwise_append, ← and_assoc,
    and_iff_left]
  intro first hfirst next hnext
  obtain ⟨index, hindex, hat⟩ := h.exists_isAt first hfirst
  obtain ⟨other, hother, hbound, hat'⟩ := hrun next hnext
  rw [Diagnostic.Before, hat, hat', UInt32.le_iff_toNat_le]
  exact hordered.start_le (hindex.trans hother) hbound

theorem pairwise_iff (h : Reports stream start entry stop solid runs) :
    runs.flatten.Pairwise Diagnostic.Before ↔ ∀ run ∈ runs, run.Pairwise Diagnostic.Before := by
  induction h with
  | nil => simp
  | leaf front bound lexical ih =>
    rw [front.pairwise_concat_iff hordered fun diagnostic hmem =>
      ⟨_, le_rfl, bound.le, isAt_of_mem_leaf lexical hmem⟩, ih]
    simp [or_imp, forall_and]
  | error front le upto bound about _ _ ih =>
    rw [front.pairwise_concat_iff hordered fun diagnostic hmem => ?_, ih]
    · simp [or_imp, forall_and]
    · obtain ⟨index, hindex, hlast, hat⟩ := exists_isAt_of_mem_error le upto about hmem
      exact ⟨index, hindex, hlast.trans bound, hat⟩

end Ordered

end Reports

/-- How often an offset comes up in a path that ends at a token. What is said of the token at the
end is what another error there needs to know. -/
structure Reports.Sparse (stream : TokenStream) (stop : Nat) (solid : Bool)
    (starts : List UInt32) : Prop where
  twice : ∀ offset, starts.count offset ≤ 2
  once : starts.count (stream.get stop).span.start ≤ 1
  none : solid ∨ stream.lexical stop ≠ [] → (stream.get stop).span.start ∉ starts

namespace Reports

variable {stream : TokenStream} {start stop last index : Nat} {entry solid : Bool}
  {runs : List (List Diagnostic)} {run : List Diagnostic} {diagnostic : Diagnostic}
  {starts : List UInt32} (hordered : stream.Ordered)

include hordered

theorem start_notMem {diagnostics : List Diagnostic} (hstop : stop ≤ stream.body.size)
    (h : ∀ diagnostic ∈ diagnostics, ∃ index < stop, diagnostic.IsAt stream index) :
    (stream.get stop).span.start ∉ Diagnostic.starts diagnostics := by
  rintro hmem
  obtain ⟨diagnostic, hdiagnostic, heq⟩ := List.mem_map.mp hmem
  obtain ⟨index, hlt, hat⟩ := h diagnostic hdiagnostic
  have hindex := hordered.start_inj (hlt.le.trans hstop) hstop (hat.symm.trans heq)
  omega

theorem Sparse.leaf (h : Sparse stream stop solid starts) (hstop : stop < stream.body.size)
    (hlast : (stream.get (stop + 1)).span.start ∉ starts)
    (hrun : run = [] ∨ run = stream.lexical stop) :
    Sparse stream (stop + 1) true (starts ++ Diagnostic.starts run) := by
  have hat (diagnostic : Diagnostic) (hmem : diagnostic ∈ run) : diagnostic.IsAt stream stop :=
    isAt_of_mem_leaf hrun hmem
  have hnew : (stream.get (stop + 1)).span.start ∉ starts ++ Diagnostic.starts run := by
    rw [List.mem_append, not_or]
    exact ⟨hlast, start_notMem hordered hstop fun diagnostic hmem =>
      ⟨stop, Nat.lt_succ_self _, hat diagnostic hmem⟩⟩
  refine ⟨fun offset => ?_, by rw [List.count_eq_zero.mpr hnew]; omega, fun _ => hnew⟩
  rw [List.count_append]
  have hlength : run.length ≤ 1 := by
    rcases hrun with rfl | rfl
    · simp
    · exact stream.length_lexical_le stop
  have hle : (Diagnostic.starts run).count offset ≤ 1 := by
    refine List.count_le_length.trans ?_
    simpa [Diagnostic.starts] using hlength
  by_cases hoffset : offset ∈ Diagnostic.starts run
  · -- the token is malformed, so nothing before it was about it
    obtain ⟨diagnostic, hmem, rfl⟩ := List.mem_map.mp hoffset
    have hlexical : stream.lexical stop ≠ [] := by
      rcases hrun with rfl | rfl
      · simp at hmem
      · exact List.ne_nil_of_mem hmem
    have hzero := List.count_eq_zero.mpr (h.none (.inr hlexical))
    rw [hat diagnostic hmem] at hle ⊢
    omega
  · rw [List.count_eq_zero.mpr hoffset]
    exact h.twice offset

theorem eq_start_of_mem {offset : UInt32}
    (hbefore : ∀ offset ∈ starts, ∃ index ≤ stop, offset = (stream.get index).span.start)
    (hle : stop ≤ index) (hupto : index ≤ last) (hlast : last ≤ stream.body.size)
    (habout : diagnostic.IsAt stream index) (hold : offset ∈ starts)
    (hnew : offset ∈ Diagnostic.starts (diagnostic :: stream.lexicals stop last)) :
    offset = (stream.get stop).span.start := by
  obtain ⟨other, hother, hoffset⟩ := hbefore offset hold
  obtain ⟨next, hnext, rfl⟩ := List.mem_map.mp hnew
  obtain ⟨index', hindex', hlast', hat⟩ := exists_isAt_of_mem_error hle hupto habout hnext
  have heq : other = index' :=
    hordered.start_inj (by omega) (by omega) (hoffset.symm.trans hat)
  have hseam : other = stop := by omega
  rw [hoffset, hseam]

theorem start_notMem_lexicals (hstop : stop ≤ last) (hlast : last ≤ stream.body.size)
    (hregular : stream.lexical stop = []) :
    (stream.get stop).span.start ∉ Diagnostic.starts (stream.lexicals stop last) := by
  intro hmem
  obtain ⟨lexical, hlexical, heq⟩ := List.mem_map.mp hmem
  obtain ⟨index, -, hlt, hmem'⟩ := TokenStream.exists_of_mem_lexicals hstop hlexical
  obtain rfl : index = stop := hordered.start_inj (by omega) (by omega)
    ((TokenStream.isAt_of_mem_lexical hmem').symm.trans heq)
  simp [hregular] at hmem'

theorem Sparse.count_error_le (h : Sparse stream stop solid starts)
    (hbefore : ∀ offset ∈ starts, ∃ index ≤ stop, offset = (stream.get index).span.start)
    (hle : stop ≤ index) (hupto : index ≤ last) (hlast : last ≤ stream.body.size)
    (habout : diagnostic.IsAt stream index) (offset : UInt32) :
    (starts ++ Diagnostic.starts (diagnostic :: stream.lexicals stop last)).count offset ≤ 2 := by
  have hstop := hle.trans hupto
  have hone : (Diagnostic.starts (stream.lexicals stop last)).count offset ≤ 1 :=
    List.nodup_iff_count_le_one.mp (hordered.nodup_starts_lexicals hstop hlast) offset
  rw [List.count_append]
  by_cases hold : offset ∈ starts
  · by_cases hnew : offset ∈ Diagnostic.starts (diagnostic :: stream.lexicals stop last)
    · obtain rfl := eq_start_of_mem hordered hbefore hle hupto hlast habout hold hnew
      -- were the token malformed, nothing before it would be about it
      have hregular : stream.lexical stop = [] := by
        by_contra hmalformed
        exact h.none (.inr hmalformed) hold
      have hnone := start_notMem_lexicals hordered hstop hlast hregular
      have honce := h.once
      rw [Diagnostic.starts_cons, List.count_cons, List.count_eq_zero.mpr hnone]
      split <;> omega
    · rw [List.count_eq_zero.mpr hnew]
      exact h.twice offset
  · rw [List.count_eq_zero.mpr hold, Diagnostic.starts_cons, List.count_cons]
    split <;> omega

theorem Sparse.error (h : Sparse stream stop solid starts)
    (hbefore : ∀ offset ∈ starts, ∃ index ≤ stop, offset = (stream.get index).span.start)
    (hle : stop ≤ index) (hupto : index ≤ last) (hlast : last ≤ stream.body.size)
    (habout : diagnostic.IsAt stream index) (htext : stop < last ∨ solid)
    (hregular : index = last → stream.lexical last = []) :
    Sparse stream last false
      (starts ++ Diagnostic.starts (diagnostic :: stream.lexicals stop last)) := by
  have hstop := hle.trans hupto
  have hindex := hupto.trans hlast
  have hlexicals : (stream.get last).span.start ∉
      Diagnostic.starts (stream.lexicals stop last) := by
    refine start_notMem hordered hlast fun diagnostic hmem => ?_
    obtain ⟨index, -, hlt, hlexical⟩ := TokenStream.exists_of_mem_lexicals hstop hmem
    exact ⟨index, hlt, TokenStream.isAt_of_mem_lexical hlexical⟩
  have hstarts : (stream.get last).span.start ∉ starts := by
    rcases Nat.eq_or_lt_of_le hstop with rfl | hlt
    · exact h.none (.inl (htext.resolve_left (Nat.lt_irrefl _)))
    · intro hmem
      obtain ⟨index, hindex, heq⟩ := hbefore _ hmem
      have := hordered.start_inj hlast (by omega) heq
      omega
  constructor
  case twice => exact h.count_error_le hordered hbefore hle hupto hlast habout
  case once =>
    rw [List.count_append, List.count_eq_zero.mpr hstarts, Diagnostic.starts_cons,
      List.count_cons, List.count_eq_zero.mpr hlexicals]
    split <;> omega
  case none =>
    rintro (hsolid | hmalformed)
    · contradiction
    · rw [List.mem_append, not_or]
      refine ⟨hstarts, fun hmem => ?_⟩
      rcases List.mem_cons.mp hmem with heq | hmem
      · exact hmalformed (hregular (hordered.start_inj hindex hlast (habout.symm.trans heq.symm)))
      · exact hlexicals hmem

theorem sparse (h : Reports stream start entry stop solid runs) :
    Sparse stream stop solid (Diagnostic.starts runs.flatten) := by
  induction h with
  | nil => exact ⟨by simp, by simp, by simp⟩
  | leaf front bound lexical ih =>
    rw [List.flatten_append, List.flatten_singleton, Diagnostic.starts_append]
    refine ih.leaf hordered bound (start_notMem hordered bound fun diagnostic hmem => ?_) lexical
    obtain ⟨index, hindex, hat⟩ := front.exists_isAt diagnostic hmem
    exact ⟨index, Nat.lt_succ_of_le hindex, hat⟩
  | error front le upto bound about text regular ih =>
    rw [List.flatten_append, List.flatten_singleton, Diagnostic.starts_append]
    refine ih.error hordered (fun offset hmem => ?_) le upto bound about text regular
    obtain ⟨diagnostic, hdiagnostic, rfl⟩ := List.mem_map.mp hmem
    exact front.exists_isAt diagnostic hdiagnostic

end Reports

section Repeats

variable {diagnostics : List Diagnostic}

theorem pairwise_dropRepeats_iff :
    (dropRepeats diagnostics).Pairwise Diagnostic.Before ↔
      diagnostics.Pairwise Diagnostic.Before := by
  fun_induction dropRepeats diagnostics with
  | case1 => rfl
  | case2 => rfl
  | case3 first rest ih =>
    rw [ih, List.pairwise_cons (l := first :: rest), iff_and_self]
    intro hrest next hnext
    rcases List.mem_cons.mp hnext with rfl | hnext
    · exact UInt32.le_refl _
    · exact (List.pairwise_cons.mp hrest).1 next hnext
  | case4 first second rest _ ih =>
    rw [List.pairwise_cons, List.pairwise_cons (l := second :: rest), ih]
    simp only [mem_dropRepeats]

theorem dropRepeats_eq_destutter (diagnostics : List Diagnostic) :
    dropRepeats diagnostics = diagnostics.destutter (· ≠ ·) := by
  fun_induction dropRepeats diagnostics with
  | case1 => rfl
  | case2 => rfl
  | case3 first rest ih => simpa [List.destutter] using ih
  | case4 first second rest hne ih => simpa [List.destutter, hne] using ih

theorem nodup_dropRepeats (h : diagnostics.Pairwise Diagnostic.Before)
    (htwice : ∀ offset, (Diagnostic.starts diagnostics).count offset ≤ 2) :
    (dropRepeats diagnostics).Nodup := by
  fun_induction dropRepeats diagnostics with
  | case1 => exact .nil
  | case2 => exact List.nodup_singleton _
  | case3 first rest ih =>
    refine ih (List.pairwise_cons.mp h).2 fun offset => (Nat.le_trans ?_ (htwice offset))
    exact List.count_le_count_cons
  | case4 first second rest hne ih =>
    obtain ⟨hfirst, hrest⟩ := List.pairwise_cons.mp h
    refine List.nodup_cons.mpr ⟨fun hmem => ?_, ih hrest fun offset =>
      List.count_le_count_cons.trans (htwice offset)⟩
    -- a repetition further on has all between the two begin at the same offset
    have hmem : first ∈ rest := by
      simpa [mem_dropRepeats, hne] using hmem
    have hsame : second.span.start = first.span.start :=
      UInt32.le_antisymm ((List.pairwise_cons.mp hrest).1 first hmem)
        (hfirst second List.mem_cons_self)
    have hcount := htwice first.span.start
    have hpos : 0 < (Diagnostic.starts rest).count first.span.start :=
      List.count_pos_iff.mpr (List.mem_map_of_mem hmem)
    simp only [Diagnostic.starts_cons, List.count_cons, hsame, beq_self_eq_true, if_true] at hcount
    omega

end Repeats

end LosslessSyntax
