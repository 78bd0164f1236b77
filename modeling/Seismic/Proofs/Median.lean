import Mathlib.Algebra.Order.Field.Rat
import Mathlib.Tactic.Linarith
import Seismic.Proofs.Arrivals
import Seismic.Server.Status

/-!
# Median — the middle of sorted values against counting

The median picks one or two places of the sorted values. What stands there is told by counting how
many values are less and how many are not greater, without sorting anything.

* **`Scalar.Ordered`**: the order that sorting uses determines a sorted list, so that
  **`Status.median_eq_of_perm`**: the median does not depend on the order of the values;
* **`Status.IsRanked`** tells a value by counting, and **`Status.isRanked_of_sorted`** finds it in
  the sorted list;
* **`Status.median_eq_some_iff`**: the exact median is the middle value, or halfway between the
  middle two, and at least half of the values lie on either side of it;
* **`Status.sorted_map`**: numbers are sorted like their exact values.
-/

namespace Seismic

/-! ## The order of sorting -/

/-- The order that sorting uses ranks all values, and no two of them alike. -/
structure Scalar.Ordered (α : Type) [Scalar α] : Prop where
  trans : ∀ a b c : α, Scalar.totalLe a b = true → Scalar.totalLe b c = true →
    Scalar.totalLe a c = true
  total : ∀ a b : α, (Scalar.totalLe a b || Scalar.totalLe b a) = true
  antisymm : ∀ a b : α, Scalar.totalLe a b = true → Scalar.totalLe b a = true → a = b

theorem Binary64.ordered : Scalar.Ordered Binary64 where
  trans := fun _ _ _ => Recording.totalLe_trans
  total := Recording.totalLe_total
  antisymm := fun _ _ => Recording.eq_of_totalLe

theorem totalLe_rat_iff {a b : ℚ} : Scalar.totalLe a b = true ↔ a ≤ b := decide_eq_true_iff

theorem ordered_rat : Scalar.Ordered ℚ where
  trans := by
    intro a b c hab hbc
    rw [totalLe_rat_iff] at *
    exact le_trans hab hbc
  total := by
    intro a b
    rw [Bool.or_eq_true, totalLe_rat_iff, totalLe_rat_iff]
    exact le_total a b
  antisymm := by
    intro a b hab hba
    rw [totalLe_rat_iff] at *
    exact le_antisymm hab hba

namespace Status

section Sorting

variable {α : Type} [Scalar α] {values values' : List α}

theorem sorted_perm (values : List α) : (sorted values).Perm values :=
  List.mergeSort_perm values Scalar.totalLe

theorem length_sorted (values : List α) : (sorted values).length = values.length :=
  (sorted_perm values).length_eq

theorem pairwise_sorted (h : Scalar.Ordered α) (values : List α) :
    (sorted values).Pairwise fun a b => Scalar.totalLe a b = true :=
  List.pairwise_mergeSort h.trans h.total values

/-- **A sorted list is the only one** with its values. -/
theorem eq_sorted (h : Scalar.Ordered α) (hperm : values'.Perm values)
    (hpairwise : values'.Pairwise fun a b => Scalar.totalLe a b = true) :
    values' = sorted values := by
  refine List.Perm.eq_of_pairwise ?_ hpairwise (pairwise_sorted h values) ?_
  · exact fun a b _ _ => h.antisymm a b
  · exact hperm.trans (sorted_perm values).symm

/-- So values in any order are sorted to the same list. -/
theorem sorted_eq_of_perm (h : Scalar.Ordered α) (hperm : values'.Perm values) :
    sorted values' = sorted values :=
  eq_sorted h ((sorted_perm values').trans hperm) (pairwise_sorted h values')

/-- **The median does not depend on the order of the values.** -/
theorem median_eq_of_perm (h : Scalar.Ordered α) (hperm : values'.Perm values) :
    median values' = median values := by
  unfold median
  rw [sorted_eq_of_perm h hperm]

/-! ## Places -/

theorem median_nil : median ([] : List α) = none := by
  have hsorted : sorted ([] : List α) = [] := List.perm_nil.mp (sorted_perm [])
  unfold median
  rw [hsorted]
  rfl

/-- Of an odd number of values the middle one is picked, -/
theorem median_of_odd (hodd : values.length % 2 = 1) :
    ∃ v, (sorted values)[values.length / 2]? = some v ∧ median values = some v := by
  have hlength := length_sorted values
  have hmiddle : values.length / 2 < (sorted values).length := by omega
  refine ⟨_, List.getElem?_eq_getElem hmiddle, ?_⟩
  unfold median
  dsimp only
  rw [hlength, if_neg (by omega)]
  exact List.getElem?_eq_getElem hmiddle

/-- and of an even number the two in the middle. -/
theorem median_of_even (hne : values ≠ []) (heven : values.length % 2 = 0) :
    ∃ a b, (sorted values)[values.length / 2 - 1]? = some a ∧
      (sorted values)[values.length / 2]? = some b ∧
        median values = some ((a + b) / Scalar.ofNat 2) := by
  have hpos := List.length_pos_iff.mpr hne
  have hlength := length_sorted values
  have hbelow : values.length / 2 - 1 < (sorted values).length := by omega
  have habove : values.length / 2 < (sorted values).length := by omega
  refine ⟨_, _, List.getElem?_eq_getElem hbelow, List.getElem?_eq_getElem habove, ?_⟩
  unfold median
  dsimp only
  rw [hlength, if_pos heven, List.getElem?_eq_getElem hbelow, List.getElem?_eq_getElem habove]

/-- **There is a median** unless there are no values. -/
theorem median_eq_none_iff : median values = none ↔ values = [] := by
  constructor
  · intro hnone
    by_contra hne
    -- Some value is picked in either case.
    rcases Nat.mod_two_eq_zero_or_one values.length with heven | hodd
    · obtain ⟨a, b, -, -, hsome⟩ := median_of_even hne heven
      rw [hnone] at hsome
      cases hsome
    · obtain ⟨v, -, hsome⟩ := median_of_odd hodd
      rw [hnone] at hsome
      cases hsome
  · rintro rfl
    exact median_nil

end Sorting

/-- **Values are sorted like their images** under a function that keeps the order. -/
theorem sorted_map {α β : Type} [Scalar α] [Scalar β] (hα : Scalar.Ordered α)
    (hβ : Scalar.Ordered β) {f : α → β}
    (hf : ∀ a b, Scalar.totalLe a b = true → Scalar.totalLe (f a) (f b) = true)
    (values : List α) : sorted (values.map f) = (sorted values).map f := by
  refine (eq_sorted hβ ((sorted_perm values).map f) ?_).symm
  rw [List.pairwise_map]
  exact (pairwise_sorted hα values).imp fun {a b} => hf a b

/-! ## Counting -/

variable {values : List ℚ} {k : ℕ} {v w : ℚ}

/-- A value is in place `k` from below: at most `k` values are less than it, and more than `k` are
not greater. -/
structure IsRanked (values : List ℚ) (k : ℕ) (v : ℚ) : Prop where
  mem : v ∈ values
  less : values.countP (· < v) ≤ k
  notGreater : k < values.countP (· ≤ v)

namespace IsRanked

/-- A place further up has no lesser value, so counting tells which value it is. -/
theorem le {k' : ℕ} (h : IsRanked values k v) (h' : IsRanked values k' w) (hle : k ≤ k') :
    v ≤ w := by
  by_contra hlt
  have hcount : values.countP (· ≤ w) ≤ values.countP (· < v) := by
    refine List.countP_mono_left fun a _ ha => ?_
    rw [decide_eq_true_eq] at ha ⊢
    exact lt_of_le_of_lt ha (not_le.mp hlt)
  have hless := h.less
  have hmore := h'.notGreater
  omega

/-- No two values are in one place. -/
theorem unique (h : IsRanked values k v) (h' : IsRanked values k w) : v = w :=
  le_antisymm (h.le h' (Nat.le_refl k)) (h'.le h (Nat.le_refl k))

/-- What is not less than the value is the rest. -/
theorem le_countP (h : IsRanked values k v) : values.length - k ≤ values.countP (v ≤ ·) := by
  have hsplit := List.length_eq_countP_add_countP (fun a => decide (a < v)) (l := values)
  have hrest : values.countP (fun a => decide ¬decide (a < v) = true) =
      values.countP (v ≤ ·) := by
    refine List.countP_congr fun a _ => ?_
    simp
  have hless := h.less
  omega

end IsRanked

/-- **What stands in a place of the sorted values** is told by counting. -/
theorem isRanked_of_sorted (h : (sorted values)[k]? = some v) : IsRanked values k v := by
  have hperm := sorted_perm values
  have hpairwise := pairwise_sorted ordered_rat values
  obtain ⟨hk, hv⟩ := List.getElem?_eq_some_iff.mp h
  obtain ⟨before, behind, hsorted, hlength⟩ : ∃ before behind,
      sorted values = before ++ v :: behind ∧ before.length = k := by
    refine ⟨(sorted values).take k, (sorted values).drop (k + 1), ?_, List.length_take_of_le hk.le⟩
    rw [← hv, List.getElem_cons_drop, List.take_append_drop]
  rw [hsorted, List.pairwise_append, List.pairwise_cons] at hpairwise
  obtain ⟨-, ⟨hbehind, -⟩, hbefore⟩ := hpairwise
  rw [hsorted] at hperm
  refine ⟨hperm.mem_iff.mp (by simp), ?_, ?_⟩
  · -- None of the values from the place on is less.
    have hnone : (v :: behind).countP (· < v) = 0 := by
      rw [List.countP_eq_zero]
      intro a ha
      rw [decide_eq_true_eq, not_lt]
      rcases List.mem_cons.mp ha with rfl | hbehind'
      · exact le_refl a
      · exact totalLe_rat_iff.mp (hbehind a hbehind')
    have hfront := List.countP_le_length (p := (· < v)) (l := before)
    rw [← hperm.countP_eq, List.countP_append, hnone]
    omega
  · -- All of the values up to the place are not greater.
    have hall : before.countP (· ≤ v) = before.length := by
      rw [List.countP_eq_length]
      intro a ha
      rw [decide_eq_true_eq]
      exact totalLe_rat_iff.mp (hbefore a ha v List.mem_cons_self)
    have hplace : 0 < (v :: behind).countP (· ≤ v) := by
      rw [List.countP_pos_iff]
      exact ⟨v, List.mem_cons_self, decide_eq_true (le_refl v)⟩
    rw [← hperm.countP_eq, List.countP_append, hall]
    omega

/-! ## The exact median -/

/-- A number is the middle one of some values or halfway between the middle two, so that at least
half of the values are not greater and at least half are not less. -/
structure IsMedian (values : List ℚ) (m : ℚ) : Prop where
  odd : values.length % 2 = 1 → IsRanked values (values.length / 2) m
  even : values.length % 2 = 0 → ∃ a b, IsRanked values (values.length / 2 - 1) a ∧
    IsRanked values (values.length / 2) b ∧ m = (a + b) / 2
  below : values.length ≤ 2 * values.countP (· ≤ m)
  above : values.length ≤ 2 * values.countP (m ≤ ·)

theorem ofNat_two_rat : (Scalar.ofNat 2 : ℚ) = 2 := by
  show ((2 : ℤ) : ℚ) = 2
  norm_num

/-- A value in the middle is a median, -/
theorem isMedian_of_odd (hodd : values.length % 2 = 1)
    (h : IsRanked values (values.length / 2) v) : IsMedian values v := by
  have hbelow := h.notGreater
  have habove := h.le_countP
  exact ⟨fun _ => h, fun heven => by omega, by omega, by omega⟩

/-- and so is the point halfway between two. -/
theorem isMedian_of_even {a b : ℚ} (hne : values ≠ []) (heven : values.length % 2 = 0)
    (ha : IsRanked values (values.length / 2 - 1) a)
    (hb : IsRanked values (values.length / 2) b) : IsMedian values ((a + b) / 2) := by
  have hpos := List.length_pos_iff.mpr hne
  have hle : a ≤ b := ha.le hb (Nat.sub_le _ 1)
  -- What is on one side of a middle value is on this side of the point halfway between them.
  have hbelow : values.countP (· ≤ a) ≤ values.countP (· ≤ (a + b) / 2) := by
    refine List.countP_mono_left fun x _ hx => ?_
    rw [decide_eq_true_eq] at hx ⊢
    linarith
  have habove : values.countP (b ≤ ·) ≤ values.countP ((a + b) / 2 ≤ ·) := by
    refine List.countP_mono_left fun x _ hx => ?_
    rw [decide_eq_true_eq] at hx ⊢
    linarith
  have hlower := ha.notGreater
  have hupper := hb.le_countP
  exact ⟨fun hodd => by omega, fun _ => ⟨a, b, ha, hb, rfl⟩, by omega, by omega⟩

theorem IsMedian.unique {m m' : ℚ} (h : IsMedian values m) (h' : IsMedian values m') : m = m' := by
  rcases Nat.mod_two_eq_zero_or_one values.length with heven | hodd
  · obtain ⟨a, b, ha, hb, rfl⟩ := h.even heven
    obtain ⟨a', b', ha', hb', rfl⟩ := h'.even heven
    rw [ha.unique ha', hb.unique hb']
  · exact (h.odd hodd).unique (h'.odd hodd)

theorem isMedian_median (h : median values = some v) : IsMedian values v := by
  have hne : values ≠ [] := by
    intro hnil
    rw [median_eq_none_iff.mpr hnil] at h
    cases h
  -- The places that are picked are told by counting.
  rcases Nat.mod_two_eq_zero_or_one values.length with heven | hodd
  · obtain ⟨a, b, ha, hb, hmedian⟩ := median_of_even hne heven
    rw [h, ofNat_two_rat, Option.some.injEq] at hmedian
    rw [hmedian]
    exact isMedian_of_even hne heven (isRanked_of_sorted ha) (isRanked_of_sorted hb)
  · obtain ⟨m, hm, hmedian⟩ := median_of_odd hodd
    rw [h, Option.some.injEq] at hmedian
    rw [hmedian]
    exact isMedian_of_odd hodd (isRanked_of_sorted hm)

/-- **The exact median is the median**, and there is no other one. -/
theorem median_eq_some_iff : median values = some v ↔ IsMedian values v := by
  constructor
  · exact isMedian_median
  · intro h
    have hsome : median values ≠ none := by
      rw [ne_eq, median_eq_none_iff]
      rintro rfl
      obtain ⟨a, b, ha, -, -⟩ := h.even rfl
      exact List.not_mem_nil ha.mem
    obtain ⟨m, hm⟩ := Option.ne_none_iff_exists'.mp hsome
    rw [hm, (isMedian_median hm).unique h]

end Status

end Seismic
