import Mathlib.Algebra.Order.Field.Rat
import Mathlib.Tactic.FieldSimp
import Mathlib.Tactic.Linarith
import Mathlib.Tactic.Ring
import Seismic.Segment

/-!
# Slicing — a cut to a window against a filter of the samples

`slice` computes the index of the first and of the last sample inside a window. In exact arithmetic
it comes to the same as asking of each sample whether it is inside.

* **`Segment.mem_readings_iff`**, **`cut_of_slice`**: what readings and slices are, in exact
  arithmetic or not;
* **`Segment.Within`** is the question, and **`Segment.within_iff`** answers it by the two indices;
* **`Segment.slice_eq_some_iff`**, **`slice_eq_none_iff`**: a slice is the run of the samples inside,
  and there is none if no sample is;
* **`Segment.cut_within_iff`**: a cut asks the same question of its samples, so that a slice of a
  slice is that of the segment (**`slice_slice`**).
-/

namespace Seismic

namespace Span

theorem covers_iff {window inner : Span Rat} :
    window.covers inner = true ↔ window.start ≤ inner.start ∧ inner.stop ≤ window.stop := by
  show (decide (window.start ≤ inner.start) && decide (inner.stop ≤ window.stop)) = true ↔ _
  rw [Bool.and_eq_true, decide_eq_true_eq, decide_eq_true_eq]

theorem covers_self (window : Span Rat) : window.covers window = true :=
  covers_iff.mpr ⟨le_refl window.start, le_refl window.stop⟩

end Span

namespace Segment

/-! ## In any arithmetic -/

section Any

variable {α : Type} [Scalar α] {s p : Segment α} {window : Span α}

/-- **The readings of a segment** are its samples that are there, each at its own time. -/
theorem mem_readings_iff {t : α} {n : Int32} :
    (t, n) ∈ s.readings ↔ ∃ i, s.samples[i]? = some n ∧ n ≠ noData ∧ s.sampleTime i = t := by
  unfold readings
  rw [List.mem_filterMap]
  constructor
  · rintro ⟨⟨n', i⟩, hentry, hsome⟩
    simp only [Option.ite_none_left_eq_some, Option.some.injEq, Prod.mk.injEq] at hsome
    obtain ⟨hreading, rfl, rfl⟩ := hsome
    exact ⟨i, List.mem_zipIdx_iff_getElem?.mp hentry, hreading, rfl⟩
  · rintro ⟨i, hsample, hreading, rfl⟩
    exact ⟨(n, i), List.mem_zipIdx_iff_getElem?.mpr hsample, if_neg hreading⟩

/-- A slice is cut from the first index inside the window to an index of the segment, and only from
a segment whose rate is not zero or negative. -/
theorem cut_of_slice (h : s.slice window = some p) :
    Scalar.le s.rate (Scalar.ofInt 0) = false ∧ ∃ last, s.firstIndex window ≤ last ∧
      last < s.length ∧ p = s.cut (s.firstIndex window) last := by
  unfold slice at h
  simp only [Option.ite_none_left_eq_some, Option.bind_eq_some_iff, Option.some.injEq] at h
  obtain ⟨hnot, last, -, hle, rfl⟩ := h
  rw [Bool.or_eq_true, not_or, List.isEmpty_iff] at hnot
  have hlength : 0 < s.length := List.length_pos_iff.mpr hnot.1
  exact ⟨Bool.eq_false_iff.mpr hnot.2, _, Nat.le_of_not_lt hle, by omega, rfl⟩

theorem length_cut {first last : Nat} (hle : first ≤ last) (hlast : last < s.length) :
    (s.cut first last).length = last - first + 1 := by
  have hlength : last < s.samples.length := hlast
  show ((s.samples.drop first).take (last - first + 1)).length = last - first + 1
  rw [List.length_take, List.length_drop]
  omega

/-- The samples of a cut are those of the segment from its first index on. -/
theorem getElem?_cut {first last index : Nat} (h : index ≤ last - first) :
    (s.cut first last).samples[index]? = s.samples[first + index]? := by
  show ((s.samples.drop first).take (last - first + 1))[index]? = _
  rw [List.getElem?_take_of_lt (Nat.lt_succ_of_le h), List.getElem?_drop]

end Any

variable {s p : Segment Rat} {window inner : Span Rat}

/-! ## Samples inside a window -/

/-- The sample at an index is inside a window, up to one millionth of a sample period. -/
def Within (s : Segment Rat) (window : Span Rat) (index : Nat) : Prop :=
  (window.start - s.start) * s.rate - 1 / 10 ^ 6 ≤ index ∧
    (index : Rat) ≤ (window.stop - s.start) * s.rate + 1 / 10 ^ 6

instance (s : Segment Rat) (window : Span Rat) (index : Nat) :
    Decidable (s.Within window index) :=
  inferInstanceAs (Decidable (_ ∧ _))

theorem millionth_eq : (Scalar.millionth : Rat) = 1 / 10 ^ 6 := by
  show mkRat 1 1000000 = 1 / 10 ^ 6
  rw [Rat.mkRat_eq_div]
  norm_num

theorem sampleTime_eq (s : Segment Rat) (index : Nat) :
    s.sampleTime index = s.start + index / s.rate := by
  show s.start + ((index : Int) : Rat) / s.rate = s.start + index / s.rate
  rw [Int.cast_natCast]

theorem firstIndex_le_iff {index : Nat} : s.firstIndex window ≤ index ↔
    (window.start - s.start) * s.rate - 1 / 10 ^ 6 ≤ index := by
  have hindex : s.firstIndex window =
      ((((window.start - s.start) * s.rate - Scalar.millionth).ceil : Rat)).floor.toNat := rfl
  rw [hindex, Rat.floor_intCast, Int.toNat_le, Rat.ceil_le_iff, millionth_eq, Int.cast_natCast]

/-- A last index is there unless the window ends before all samples. -/
theorem lastIndex?_cases (s : Segment Rat) (window : Span Rat) :
    (s.lastIndex? window = none ∧ (window.stop - s.start) * s.rate + 1 / 10 ^ 6 < 0) ∨
      ∃ last, s.lastIndex? window = some last ∧
        ∀ index : Nat, index ≤ last ↔
          (index : Rat) ≤ (window.stop - s.start) * s.rate + 1 / 10 ^ 6 := by
  have hlast : s.lastIndex? window =
      if (((window.stop - s.start) * s.rate + Scalar.millionth).floor : Rat) < ((0 : Int) : Rat)
      then none
      else some ((((window.stop - s.start) * s.rate + Scalar.millionth).floor : Rat)).floor.toNat := by
    unfold lastIndex?
    show (if decide _ = true then _ else _) = _
    simp only [decide_eq_true_eq]
    rfl
  simp only [Rat.floor_intCast, millionth_eq, Int.cast_lt] at hlast
  rw [hlast]
  by_cases hneg : ((window.stop - s.start) * s.rate + 1 / 10 ^ 6).floor < 0
  · left
    refine ⟨if_pos hneg, ?_⟩
    rw [Rat.floor_lt_iff] at hneg
    exact_mod_cast hneg
  · right
    refine ⟨_, if_neg hneg, fun index => ?_⟩
    rw [Int.le_toNat (Int.not_lt.mp hneg), Rat.le_floor_iff, Int.cast_natCast]

/-- **Which samples are inside** is told by the two indices. -/
theorem within_iff {index : Nat} : s.Within window index ↔
    s.firstIndex window ≤ index ∧ ∃ last, s.lastIndex? window = some last ∧ index ≤ last := by
  unfold Within
  rw [firstIndex_le_iff]
  refine and_congr_right fun _ => ?_
  rcases s.lastIndex?_cases window with ⟨hnone, hneg⟩ | ⟨last, hlast, hle⟩
  · have hindex : (0 : Rat) ≤ index := Nat.cast_nonneg index
    rw [hnone]
    constructor
    · intro hinside
      linarith
    · rintro ⟨_, hsome, -⟩
      cases hsome
  · rw [hlast, ← hle index]
    simp

/-! ## The run of the samples inside -/

/-- The samples inside a window are those from index `first` to index `last`, which exist. -/
structure Run (s : Segment Rat) (window : Span Rat) (first last : Nat) : Prop where
  ordered : first ≤ last
  exist : last < s.length
  inside : ∀ index < s.length, s.Within window index ↔ first ≤ index ∧ index ≤ last

namespace Run

variable {first last first' last' : Nat}

theorem first_within (h : s.Run window first last) : s.Within window first :=
  (h.inside first (Nat.lt_of_le_of_lt h.ordered h.exist)).mpr ⟨Nat.le_refl first, h.ordered⟩

theorem last_within (h : s.Run window first last) : s.Within window last :=
  (h.inside last h.exist).mpr ⟨h.ordered, Nat.le_refl last⟩

/-- A run is told by what is inside. -/
theorem unique (h : s.Run window first last) (h' : s.Run window first' last') :
    first = first' ∧ last = last' := by
  have hfirst := (h'.inside first (Nat.lt_of_le_of_lt h.ordered h.exist)).mp h.first_within
  have hlast := (h'.inside last h.exist).mp h.last_within
  have hfirst' := (h.inside first' (Nat.lt_of_le_of_lt h'.ordered h'.exist)).mp h'.first_within
  have hlast' := (h.inside last' h'.exist).mp h'.last_within
  omega

end Run

/-- What slicing does, in one case for each way that it can come out. -/
theorem slice_cases (hrate : 0 < s.rate) (window : Span Rat) :
    (s.slice window = none ∧ ∀ index < s.length, ¬s.Within window index) ∨
      ∃ first last, s.Run window first last ∧ s.slice window = some (s.cut first last) := by
  have hpositive : Scalar.le s.rate (Scalar.ofInt 0) = false := by
    show decide (s.rate ≤ ((0 : Int) : Rat)) = false
    rw [decide_eq_false_iff_not, Int.cast_zero, not_le]
    exact hrate
  unfold slice
  rw [hpositive, Bool.or_false]
  by_cases hempty : s.samples.isEmpty = true
  · left
    refine ⟨if_pos hempty, fun index hindex => ?_⟩
    rw [length, List.isEmpty_iff.mp hempty] at hindex
    exact absurd hindex (Nat.not_lt_zero index)
  · have hlength : 0 < s.length := List.length_pos_iff.mpr (mt List.isEmpty_iff.mpr hempty)
    rw [if_neg hempty]
    cases hlast : s.lastIndex? window with
    | none =>
      left
      refine ⟨rfl, fun index _ hwithin => ?_⟩
      obtain ⟨-, last, hsome, -⟩ := within_iff.mp hwithin
      rw [hlast] at hsome
      cases hsome
    | some last =>
      -- Clipped to the samples that there are, the last index tells the same of them.
      have hinside : ∀ index < s.length, s.Within window index ↔
          s.firstIndex window ≤ index ∧ index ≤ min last (s.length - 1) := by
        intro index hindex
        rw [within_iff, hlast]
        simp only [Option.some.injEq, exists_eq_left']
        omega
      show (if min last (s.length - 1) < s.firstIndex window then none else some _) = none ∧ _ ∨ _
      by_cases hbefore : min last (s.length - 1) < s.firstIndex window
      · left
        refine ⟨if_pos hbefore, fun index hindex hwithin => ?_⟩
        have hbetween := (hinside index hindex).mp hwithin
        omega
      · right
        refine ⟨s.firstIndex window, min last (s.length - 1), ⟨by omega, by omega, hinside⟩, ?_⟩
        exact if_neg hbefore

/-- **A slice is the run of the samples inside.** -/
theorem slice_eq_some_iff (hrate : 0 < s.rate) : s.slice window = some p ↔
    ∃ first last, s.Run window first last ∧ p = s.cut first last := by
  rcases slice_cases hrate window with ⟨hnone, houtside⟩ | ⟨first, last, hrun, hsome⟩
  · rw [hnone]
    constructor
    · intro h
      cases h
    · rintro ⟨first, last, hrun, -⟩
      exact absurd hrun.last_within (houtside last hrun.exist)
  · rw [hsome, Option.some.injEq]
    constructor
    · rintro rfl
      exact ⟨first, last, hrun, rfl⟩
    · rintro ⟨first', last', hrun', rfl⟩
      obtain ⟨rfl, rfl⟩ := hrun.unique hrun'
      rfl

/-- **There is no slice** if no sample is inside, and only then. -/
theorem slice_eq_none_iff (hrate : 0 < s.rate) :
    s.slice window = none ↔ ∀ index < s.length, ¬s.Within window index := by
  rcases slice_cases hrate window with ⟨hnone, houtside⟩ | ⟨first, last, hrun, hsome⟩
  · exact iff_of_true hnone houtside
  · refine iff_of_false ?_ fun houtside => houtside last hrun.exist hrun.last_within
    rw [hsome]
    exact Option.some_ne_none _

/-! ## Sample by sample -/

/-- The samples inside a window, asked one by one. -/
def samplesWithin (s : Segment Rat) (window : Span Rat) : List Int32 :=
  (s.samples.zipIdx.filter fun e => s.Within window e.2).map Prod.fst

section Indices

variable {α : Type} {list : List α} {k : Nat} {P : Nat → Bool}

theorem filter_zipIdx_eq_self (h : ∀ index, k ≤ index → index < k + list.length → P index = true) :
    ((list.zipIdx k).filter fun e => P e.2) = list.zipIdx k := by
  rw [List.filter_eq_self]
  intro e he
  have hindex := List.mem_zipIdx he
  exact h e.2 hindex.1 hindex.2.1

theorem filter_zipIdx_eq_nil
    (h : ∀ index, k ≤ index → index < k + list.length → P index = false) :
    ((list.zipIdx k).filter fun e => P e.2) = [] := by
  rw [List.filter_eq_nil_iff]
  intro e he
  have hindex := List.mem_zipIdx he
  rw [h e.2 hindex.1 hindex.2.1]
  exact Bool.false_ne_true

/-- What stands at the indices of a run is a stretch of the list. -/
theorem filter_zipIdx_between {first last : Nat} (hle : first ≤ last) (hlast : last < list.length)
    (hP : ∀ index < list.length, P index = true ↔ first ≤ index ∧ index ≤ last) :
    (list.zipIdx.filter fun e => P e.2).map Prod.fst =
      (list.drop first).take (last - first + 1) := by
  -- The list falls apart into what is before the run, the run and what is behind it.
  obtain ⟨before, run, behind, rfl, rfl, hrun⟩ : ∃ before run behind,
      list = before ++ (run ++ behind) ∧ before.length = first ∧
        run.length = last - first + 1 := by
    refine ⟨list.take first, (list.drop first).take (last - first + 1),
      (list.drop first).drop (last - first + 1), ?_, ?_, ?_⟩
    · rw [List.take_append_drop, List.take_append_drop]
    · rw [List.length_take]
      omega
    · rw [List.length_take, List.length_drop]
      omega
  simp only [List.length_append] at hlast hP
  have houtside : ∀ index < before.length + (run.length + behind.length),
      index < before.length ∨ last < index → P index = false := by
    intro index hindex hout
    rw [Bool.eq_false_iff, ne_eq, hP index hindex]
    omega
  have hnone : (before.zipIdx.filter fun e => P e.2) = [] :=
    filter_zipIdx_eq_nil fun index _ hindex => houtside index (by omega) (by omega)
  have hall : ((run.zipIdx (0 + before.length)).filter fun e => P e.2) =
      run.zipIdx (0 + before.length) :=
    filter_zipIdx_eq_self fun index hlow hhigh => (hP index (by omega)).mpr (by omega)
  have hrest : ((behind.zipIdx (0 + before.length + run.length)).filter fun e => P e.2) = [] :=
    filter_zipIdx_eq_nil fun index hlow hhigh => houtside index (by omega) (by omega)
  rw [List.zipIdx_append, List.zipIdx_append, List.filter_append, List.filter_append, hnone, hall,
    hrest, List.nil_append, List.append_nil, List.zipIdx_map_fst, List.drop_left, ← hrun,
    List.take_left]

end Indices

theorem samples_of_run {first last : Nat} (h : s.Run window first last) :
    (s.cut first last).samples = s.samplesWithin window := by
  have hinside : ∀ index < s.samples.length, decide (s.Within window index) = true ↔
      first ≤ index ∧ index ≤ last := by
    intro index hindex
    rw [decide_eq_true_eq]
    exact h.inside index hindex
  exact (filter_zipIdx_between h.ordered h.exist hinside).symm

/-! ## Slices of slices -/

/-- **A cut asks the same of its samples** as the segment does, whose indices are shifted. -/
theorem cut_within_iff (hrate : 0 < s.rate) {first last index : Nat} :
    (s.cut first last).Within window index ↔ s.Within window (first + index) := by
  -- The cut starts `first` periods later, so both bounds move down by `first`.
  have hshift (time : Rat) : (time - (s.cut first last).start) * (s.cut first last).rate =
      (time - s.start) * s.rate - first := by
    show (time - s.sampleTime first) * s.rate = (time - s.start) * s.rate - first
    rw [sampleTime_eq]
    field_simp
    ring
  unfold Within
  rw [hshift, hshift]
  push_cast
  constructor
  · rintro ⟨hstart, hstop⟩
    constructor <;> linarith
  · rintro ⟨hstart, hstop⟩
    constructor <;> linarith

/-- In exact arithmetic a cut leaves each sample at its time. -/
theorem sampleTime_cut (s : Segment Rat) (first last index : Nat) :
    (s.cut first last).sampleTime index = s.sampleTime (first + index) := by
  rw [sampleTime_eq, sampleTime_eq]
  show s.sampleTime first + index / s.rate = s.start + ((first + index : Nat) : Rat) / s.rate
  rw [sampleTime_eq]
  push_cast
  ring

/-- A cut of a cut is a cut. -/
theorem cut_cut {first last first' last' : Nat} (hle' : first' ≤ last')
    (hlast' : last' ≤ last - first) :
    (s.cut first last).cut first' last' = s.cut (first + first') (first + last') := by
  have hsamples : (((s.samples.drop first).take (last - first + 1)).drop first').take
      (last' - first' + 1) =
        (s.samples.drop (first + first')).take (first + last' - (first + first') + 1) := by
    rw [List.drop_take, List.drop_drop, List.take_take]
    congr 1
    omega
  show Segment.mk ((s.cut first last).sampleTime first') s.rate
    ((((s.samples.drop first).take (last - first + 1)).drop first').take (last' - first' + 1)) = _
  rw [sampleTime_cut, hsamples]
  rfl

/-- A wider window has all the samples inside that a window in it has. -/
theorem Within.mono (hrate : 0 < s.rate) (hcovers : window.covers inner = true) {index : Nat}
    (h : s.Within inner index) : s.Within window index := by
  obtain ⟨hstart, hstop⟩ := Span.covers_iff.mp hcovers
  have hfrom : (window.start - s.start) * s.rate ≤ (inner.start - s.start) * s.rate :=
    mul_le_mul_of_nonneg_right (by linarith) (le_of_lt hrate)
  have hto : (inner.stop - s.start) * s.rate ≤ (window.stop - s.start) * s.rate :=
    mul_le_mul_of_nonneg_right (by linarith) (le_of_lt hrate)
  exact ⟨by linarith [h.1], by linarith [h.2]⟩

/-- **Slicing in two steps**: a window in another one has the same slice of the other's slice. -/
theorem slice_slice (hrate : 0 < s.rate) (hcovers : window.covers inner = true) :
    (s.slice window).bind (·.slice inner) = s.slice inner := by
  rcases slice_cases hrate window with ⟨hnone, houtside⟩ | ⟨first, last, hrun, hsome⟩
  · have hinner : s.slice inner = none :=
      (slice_eq_none_iff hrate).mpr fun index hindex hwithin =>
        houtside index hindex (hwithin.mono hrate hcovers)
    rw [hnone, hinner]
    rfl
  · have hlength := length_cut hrun.ordered hrun.exist
    have hcutRate : 0 < (s.cut first last).rate := hrate
    have hexist := hrun.exist
    have hordered := hrun.ordered
    rw [hsome, Option.bind_some]
    rcases slice_cases hrate inner with ⟨hnone, houtside⟩ | ⟨first', last', hrun', hsome'⟩
    · rw [hnone, slice_eq_none_iff hcutRate]
      intro index hindex hwithin
      exact houtside (first + index) (by omega) ((cut_within_iff hrate).mp hwithin)
    · -- The run of the window inside lies in the run of the other one.
      have hfrom := (hrun.inside first' (Nat.lt_of_le_of_lt hrun'.ordered hrun'.exist)).mp
        (hrun'.first_within.mono hrate hcovers)
      have hto := (hrun.inside last' hrun'.exist).mp (hrun'.last_within.mono hrate hcovers)
      have hordered' := hrun'.ordered
      have hshifted : (s.cut first last).Run inner (first' - first) (last' - first) := by
        refine ⟨by omega, by omega, fun index hindex => ?_⟩
        rw [cut_within_iff hrate, hrun'.inside (first + index) (by omega)]
        omega
      rw [hsome', slice_eq_some_iff hcutRate]
      refine ⟨_, _, hshifted, ?_⟩
      rw [cut_cut (by omega) (by omega), Nat.add_sub_cancel' hfrom.1, Nat.add_sub_cancel' hto.1]

/-- **Slicing is filtering the samples one by one.** -/
theorem slice_filters_samples (s : Segment Rat) (hrate : 0 < s.rate) (window : Span Rat) :
    (s.slice window = none ↔ ∀ index < s.length, ¬s.Within window index) ∧
    (∀ p, s.slice window = some p → ∃ first last, s.Run window first last ∧
      p.samples = s.samplesWithin window ∧ p.rate = s.rate ∧
        p.start = s.start + first / s.rate) ∧
    (s.slice window).bind (·.slice window) = s.slice window ∧
    ∀ inner, window.covers inner = true →
      (s.slice window).bind (·.slice inner) = s.slice inner := by
  refine ⟨slice_eq_none_iff hrate, ?_, slice_slice hrate window.covers_self,
    fun inner => slice_slice hrate⟩
  intro p hp
  obtain ⟨first, last, hrun, rfl⟩ := (slice_eq_some_iff hrate).mp hp
  exact ⟨first, last, hrun, samples_of_run hrun, rfl, sampleTime_eq s first⟩

/-- Ten samples to the second. -/
def tenths : Segment Rat := ⟨100, 10, [0, 1, 2, 3, 4, 5, 6, 7]⟩

/-- A window between samples is rounded inwards, and one that ends just before it starts is inside
one millionth of a period from a sample. -/
theorem slice_filters_samples_tenths :
    tenths.slice ⟨100 + 1 / 5 + 1 / 200, 100 + 2 / 5 + 1 / 200⟩ =
        some ⟨100 + 3 / 10, 10, [3, 4]⟩ ∧
      tenths.samplesWithin ⟨100 + 1 / 5 + 1 / 200, 100 + 2 / 5 + 1 / 200⟩ = [3, 4] ∧
      (tenths.slice ⟨100 + 1 / 5 + 1 / 10 ^ 8, 100 + 1 / 5⟩).isSome = true ∧
      (tenths.slice ⟨100, 101⟩).bind (·.slice ⟨100 + 1 / 5 + 1 / 10 ^ 8, 100 + 1 / 5⟩) =
        tenths.slice ⟨100 + 1 / 5 + 1 / 10 ^ 8, 100 + 1 / 5⟩ := by
  have hcovers : (⟨100, 101⟩ : Span Rat).covers ⟨100 + 1 / 5 + 1 / 10 ^ 8, 100 + 1 / 5⟩ = true := by
    decide +kernel
  refine ⟨by decide +kernel, by decide +kernel, by decide +kernel, ?_⟩
  exact (slice_filters_samples tenths (by decide) ⟨100, 101⟩).2.2.2 _ hcovers

end Segment

end Seismic
