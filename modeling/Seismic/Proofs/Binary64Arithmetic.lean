import Seismic.Number.Scalar
import Seismic.Proofs.Rounding

/-!
# Binary64Arithmetic — arithmetic keeps the order of numbers

A rounded result may be off, but it is never out of order: of two exact results the greater one is
not rounded below the other. So every operation that is monotone on exact values is monotone on
`Binary64`, whatever is lost by rounding.

* **`Binary64.le_of_rounded`**: an operation that rounds a monotone function of the exact value keeps
  the order, infinities included;
* **`add_le_add`**, **`sub_le_sub`**, **`mul_le_mul`**, **`floor_le_floor`**, **`ceil_le_ceil`**,
  **`round_le_round`** and **`clipInt_le_clipInt`** are the operations by which times become indices;
* **`sub_le_sub_or`**, **`sub_nonneg_or`**: what is left of this where infinities may cancel.
-/

namespace Seismic.Binary64

variable {x y a : Binary64}

/-! ## Sums and products that are no finite numbers -/

/-- A sum is no number if a summand is none. -/
theorem nan_add (hx : x.isNaN = true) (y : Binary64) : x + y = nan := by
  show x.add y = nan
  unfold add
  rw [hx, Bool.true_or, if_pos rfl]

theorem add_nan (x : Binary64) {y : Binary64} (hy : y.isNaN = true) : x + y = nan := by
  show x.add y = nan
  unfold add
  rw [hy, Bool.or_true, if_pos rfl]

theorem nan_mul (hx : x.isNaN = true) (y : Binary64) : x * y = nan := by
  show x.mul y = nan
  unfold mul
  rw [hx, Bool.true_or]
  rfl

theorem div_nan (x : Binary64) {y : Binary64} (hy : y.isNaN = true) : x / y = nan := by
  show x.div y = nan
  unfold div
  rw [hy, Bool.or_true, if_pos rfl]

theorem nan_sub (hx : x.isNaN = true) (y : Binary64) : x - y = nan := nan_add hx y.neg

theorem sub_nan (x : Binary64) {y : Binary64} (hy : y.isNaN = true) : x - y = nan :=
  add_nan x (show y.neg.isNaN = true from hy)

/-- So where there is a difference, both are numbers. -/
theorem isNaN_of_sub (h : (x - y).isNaN = false) : x.isNaN = false ∧ y.isNaN = false := by
  constructor
  · cases hx : x.isNaN with
    | false => rfl
    | true =>
      rw [nan_sub hx y] at h
      cases h
  · cases hy : y.isNaN with
    | false => rfl
    | true =>
      rw [sub_nan x hy] at h
      cases h

/-- A finite number does not move an infinity. -/
theorem infinity_add (negative : Bool) (ha : a.isFinite = true) :
    infinity negative + a = infinity negative := by
  show (infinity negative).add a = infinity negative
  unfold add
  rw [isNaN_of_isFinite ha, isInfinite_of_isFinite ha]
  rfl

theorem infinity_sub (negative : Bool) (ha : a.isFinite = true) :
    infinity negative - a = infinity negative :=
  infinity_add negative (show a.neg.isFinite = true from ha)

theorem add_infinity (hx : x.isFinite = true) (negative : Bool) :
    x + infinity negative = infinity negative := by
  show x.add (infinity negative) = infinity negative
  unfold add
  rw [isNaN_of_isFinite hx, isInfinite_of_isFinite hx]
  rfl

theorem negative_of_rank_pos (h : 0 < a.rank) : a.negative = false := by
  rw [Bool.eq_false_iff]
  intro hnegative
  rw [rank, if_pos hnegative] at h
  omega

/-- Neither does a positive factor. -/
theorem infinity_mul (negative : Bool) (ha : a.isFinite = true) (hpos : 0 < a.rank) :
    infinity negative * a = infinity negative := by
  have hcode : a.code ≠ 0 := by
    have hbounds := a.rank_bounds
    omega
  have hnumber : (infinity negative).isNaN = false := rfl
  have hinfinite : (infinity negative).isInfinite = true := rfl
  show (infinity negative).mul a = infinity negative
  unfold mul
  rw [hnumber, isNaN_of_isFinite ha, hinfinite, negative_of_rank_pos hpos]
  simp only [Bool.or_self, Bool.false_eq_true, if_false, if_true, if_neg hcode]
  cases negative <;> rfl

theorem eq_zero_of_code (hsign : x.negative = false) (hcode : x.code = 0) : x = zero false := by
  rcases x with ⟨negative, code, hlt⟩
  obtain rfl : negative = false := hsign
  obtain rfl : code = 0 := hcode
  rfl

/-- A positive multiple of zero. -/
theorem zero_mul (ha : a.isFinite = true) (hpos : 0 < a.rank) : zero false * a = zero false := by
  have hnumber : (zero false).isNaN = false := rfl
  have hfinite : (zero false).isInfinite = false := rfl
  show (zero false).mul a = zero false
  unfold mul
  rw [hnumber, isNaN_of_isFinite ha, hfinite, isInfinite_of_isFinite ha,
    negative_of_rank_pos hpos, magnitude_of_code (show (zero false).code = 0 from rfl), Nat.zero_mul]
  exact eq_zero_of_code rfl (code_nearest_zero false unitsPerOne)

/-- A number that is not negative times infinity is infinity, or nothing if it is zero. -/
theorem mul_infinity_cases {x : Binary64} (h : (zero false).le x = true) :
    x * infinity false = nan ∨ x * infinity false = infinity false := by
  have hnumber : x.isNaN = false := (isNaN_of_le h).2
  have hrank : 0 ≤ x.rank := rank_le_of_le h
  have hinfinity : (infinity false).isNaN = false ∧ (infinity false).isInfinite = true := by decide
  show x.mul (infinity false) = nan ∨ x.mul (infinity false) = infinity false
  unfold mul
  rw [hnumber, hinfinity.1, hinfinity.2]
  by_cases hcode : x.code = 0
  · have hfinite : x.isInfinite = false := by
      rw [isInfinite, hcode]
      rfl
    refine .inl ?_
    dsimp only
    rw [hfinite, if_pos hcode]
    rfl
  · have hsign : x.negative = false := by
      rw [Bool.eq_false_iff]
      intro hnegative
      rw [rank, if_pos hnegative] at hrank
      omega
    have hinfinite : (infinity false).code ≠ 0 := by decide
    refine .inr ?_
    rw [hsign]
    dsimp only
    rw [if_neg hcode, if_neg hinfinite]
    cases x.isInfinite <;> rfl

/-! ## Operations -/

/-- **An operation keeps the order if it rounds a monotone function of the exact value** and leaves
the infinities as they are. -/
theorem le_of_rounded {f : Binary64 → Binary64} {num : Int → Int} {d : Nat} (hd : 0 < d)
    (hmono : ∀ m n, m ≤ n → num m ≤ num n)
    (hfinite : ∀ x : Binary64, x.isFinite = true →
      (f x).isNaN = false ∧ (f x).rank = roundedRank (num x.units) d)
    (hinfinity : ∀ negative, f (infinity negative) = infinity negative)
    (h : x.le y = true) : (f x).le (f y) = true := by
  obtain ⟨hx, hy⟩ := isNaN_of_le h
  have hrank := rank_le_of_le h
  have hnumber {z : Binary64} (hz : z.isNaN = false) : (f z).isNaN = false := by
    rcases finite_or_infinity hz with hz | rfl | rfl
    · exact (hfinite z hz).1
    · rw [hinfinity]
      rfl
    · rw [hinfinity]
      rfl
  -- Between finite numbers rounding keeps the order; an infinity stays where it is, at the end.
  rcases finite_or_infinity hx with hxfinite | rfl | rfl
  · rcases finite_or_infinity hy with hyfinite | rfl | rfl
    · rw [le_iff_rank (hnumber hx) (hnumber hy), (hfinite x hxfinite).2, (hfinite y hyfinite).2]
      exact roundedRank_mono hd (hmono _ _ (units_mono hrank))
    · have hlt := (rank_lt_infinity hxfinite).1
      omega
    · rw [hinfinity false]
      exact le_infinity (hnumber hx)
  · rw [hinfinity true]
    exact infinity_le (hnumber hy)
  · rcases finite_or_infinity hy with hyfinite | rfl | rfl
    · have hlt := (rank_lt_infinity hyfinite).2
      omega
    · exact absurd hrank (by decide)
    · exact le_refl (hnumber hy)

/-- Adding a finite number keeps the order. -/
theorem add_le_add (ha : a.isFinite = true) (h : x.le y = true) : (x + a).le (y + a) = true := by
  have hfinite (x : Binary64) (hx : x.isFinite = true) :
      (x + a).isNaN = false ∧ (x + a).rank = roundedRank (x.units + a.units) 1 :=
    ⟨isNaN_add hx (isNaN_of_isFinite ha), rank_add hx ha⟩
  exact le_of_rounded Nat.one_pos (fun m n hmn => Int.add_le_add_right hmn a.units) hfinite
    (fun negative => infinity_add negative ha) h

/-- The same number added to equal ones makes equal sums. -/
theorem add_numEq_add (hy : y.isFinite = true) (ha : a.isNaN = false) (h : x.numEq y = true) :
    (x + a).numEq (y + a) = true := by
  have hx := isFinite_of_numEq hy h
  obtain ⟨hle, hge⟩ := numEq_iff_le.mp h
  rcases finite_or_infinity ha with ha | rfl | rfl
  · exact numEq_iff_le.mpr ⟨add_le_add ha hle, add_le_add ha hge⟩
  · rw [add_infinity hx, add_infinity hy]
    decide
  · rw [add_infinity hx, add_infinity hy]
    decide

/-- Subtracting a finite number keeps the order. -/
theorem sub_le_sub (ha : a.isFinite = true) (h : x.le y = true) : (x - a).le (y - a) = true :=
  add_le_add (show a.neg.isFinite = true from ha) h

/-- Subtracting any number keeps the order, but for differences that are no numbers or below all. -/
theorem sub_le_sub_or (a : Binary64) (h : x.le y = true) :
    (x - a).le (y - a) = true ∨ (x - a).isNaN = true ∨ x - a = infinity true := by
  obtain ⟨hx, hy⟩ := isNaN_of_le h
  cases ha : a.isNaN with
  | true =>
    rw [sub_nan x ha]
    exact .inr (.inl rfl)
  | false =>
    rcases finite_or_infinity ha with ha | rfl | rfl
    · exact .inl (sub_le_sub ha h)
    · -- All but minus infinity are equally far from minus infinity.
      have habove {z : Binary64} (hz : z.isFinite = true ∨ z = infinity false) :
          z - infinity true = infinity false := by
        rcases hz with hz | rfl
        · exact add_infinity hz false
        · decide
      rcases finite_or_infinity hx with hx | rfl | rfl
      · rw [habove (.inl hx), habove (finite_or_infinity_of_le (.inl hx) h)]
        exact .inl (by decide)
      · exact .inr (.inl (by decide))
      · rw [habove (.inr rfl), habove (finite_or_infinity_of_le (.inr rfl) h)]
        exact .inl (by decide)
    · rcases finite_or_infinity hx with hx | rfl | rfl
      · exact .inr (.inr (add_infinity hx true))
      · exact .inr (.inr (by decide))
      · exact .inr (.inl (by decide))

theorem units_neg (x : Binary64) : x.neg.units = -x.units := by
  have hmagnitude : x.neg.magnitude = x.magnitude := rfl
  unfold units
  rw [hmagnitude]
  cases hsign : x.negative <;> simp [neg, hsign]

/-- A number less another that is not greater is not negative, if it is a number. -/
theorem sub_nonneg_or (h : x.le y = true) :
    (y - x).isNaN = true ∨ (zero false).le (y - x) = true := by
  obtain ⟨hx, hy⟩ := isNaN_of_le h
  -- Finite numbers by their exact difference; of an infinity and another number the difference is
  -- an infinity, and of two equal ones no number.
  rcases finite_or_infinity hx with hxfinite | rfl | rfl
  · rcases finite_or_infinity_of_le (.inl hxfinite) h with hyfinite | rfl
    · have hle := units_mono (rank_le_of_le h)
      have hrank : (y - x).rank = roundedRank (y.units + x.neg.units) 1 :=
        rank_add hyfinite (show x.neg.isFinite = true from hxfinite)
      have hnonneg : roundedRank 0 1 ≤ roundedRank (y.units + x.neg.units) 1 :=
        roundedRank_mono Nat.one_pos (by rw [units_neg]; omega)
      rw [roundedRank_zero] at hnonneg
      rw [le_iff_rank rfl (isNaN_sub hyfinite hx), hrank]
      exact .inr hnonneg
    · rw [infinity_sub false hxfinite]
      exact .inr (by decide)
  · rcases finite_or_infinity hy with hy | rfl | rfl
    · rw [show y - infinity true = infinity false from add_infinity hy false]
      exact .inr (by decide)
    · exact .inl (by decide)
    · exact .inr (by decide)
  · rcases finite_or_infinity_of_le (.inr rfl) h with hy | rfl
    · have hlt := (rank_lt_infinity hy).2
      have hrank := rank_le_of_le h
      omega
    · exact .inl (by decide)

/-- The same for a number that is sorted behind the other. -/
theorem sub_nonneg_of_totalLe (h : x.totalLe y = true) :
    (y - x).isNaN = true ∨ (zero false).le (y - x) = true := by
  cases hnumber : (y - x).isNaN with
  | true => exact .inl rfl
  | false =>
    obtain ⟨hy, hx⟩ := isNaN_of_sub hnumber
    have hnonneg := sub_nonneg_or (le_of_totalLe hx hy h)
    rwa [hnumber] at hnonneg

/-- Multiplying by a positive number keeps the order. -/
theorem mul_le_mul (ha : a.isFinite = true) (hpos : 0 < a.rank) (h : x.le y = true) :
    (x * a).le (y * a) = true := by
  have hfinite (x : Binary64) (hx : x.isFinite = true) :
      (x * a).isNaN = false ∧ (x * a).rank = roundedRank (x.units * a.units) unitsPerOne := by
    refine ⟨?_, rank_mul hx ha⟩
    show (x.mul a).isNaN = false
    unfold mul
    rw [isNaN_of_isFinite hx, isNaN_of_isFinite ha, isInfinite_of_isFinite hx,
      isInfinite_of_isFinite ha]
    exact isNaN_nearest _ _ _
  have hunits : 0 ≤ a.units := units_nonneg (Int.le_of_lt hpos)
  exact le_of_rounded unitsPerOne_pos (fun m n hmn => Int.mul_le_mul_of_nonneg_right hmn hunits)
    hfinite (fun negative => infinity_mul negative ha hpos) h

/-- Infinities are whole already. -/
theorem toWhole_infinity (whole : Binary64 → Int) (negative : Bool) :
    toWhole whole (infinity negative) = infinity negative := by
  unfold toWhole
  exact if_neg (by cases negative <;> decide)

/-- Going over to whole numbers keeps the order if they are picked in order. -/
theorem toWhole_le_toWhole {whole : Binary64 → Int} (pick : Int → Int)
    (hwhole : ∀ x, whole x = pick x.units) (hzero : pick 0 = 0)
    (hmono : ∀ m n, m ≤ n → pick m ≤ pick n) (h : x.le y = true) :
    (toWhole whole x).le (toWhole whole y) = true := by
  have hone : (0 : Int) ≤ unitsPerOne := Int.natCast_nonneg _
  have hfinite (x : Binary64) (hx : x.isFinite = true) : (toWhole whole x).isNaN = false ∧
      (toWhole whole x).rank = roundedRank (pick x.units * unitsPerOne) 1 := by
    refine ⟨?_, rank_toWhole hx (hwhole x) hzero hmono⟩
    rw [toWhole, if_pos hx]
    exact isNaN_nearest _ _ _
  exact le_of_rounded Nat.one_pos
    (fun m n hmn => Int.mul_le_mul_of_nonneg_right (hmono m n hmn) hone) hfinite
    (toWhole_infinity whole) h

theorem fdiv_unitsPerOne_mono {m n : Int} (h : m ≤ n) :
    Int.fdiv m unitsPerOne ≤ Int.fdiv n unitsPerOne := by
  have hone : (0 : Int) < unitsPerOne := Int.natCast_pos.mpr unitsPerOne_pos
  rw [Int.fdiv_eq_ediv_of_nonneg _ (Int.le_of_lt hone),
    Int.fdiv_eq_ediv_of_nonneg _ (Int.le_of_lt hone)]
  exact Int.ediv_le_ediv hone h

/-- Rounding down keeps the order. -/
theorem floor_le_floor (h : x.le y = true) : x.floor.le y.floor = true :=
  toWhole_le_toWhole (Int.fdiv · unitsPerOne) (fun _ => rfl) (Int.zero_fdiv _)
    (fun _ _ => fdiv_unitsPerOne_mono) h

/-- Rounding up does too. -/
theorem ceil_le_ceil (h : x.le y = true) : x.ceil.le y.ceil = true := by
  have hmono (m n : Int) (hmn : m ≤ n) :
      -Int.fdiv (-m) unitsPerOne ≤ -Int.fdiv (-n) unitsPerOne :=
    Int.neg_le_neg (fdiv_unitsPerOne_mono (Int.neg_le_neg hmn))
  have hzero : -Int.fdiv (-0) unitsPerOne = 0 := by decide +kernel
  exact toWhole_le_toWhole (fun n => -Int.fdiv (-n) unitsPerOne) (fun _ => rfl) hzero hmono h

/-- So does rounding to the nearest whole number. -/
theorem round_le_round (h : x.le y = true) : x.round.le y.round = true :=
  toWhole_le_toWhole nearestWhole roundInt_eq (congrArg Nat.cast halfUp_zero)
    (fun _ _ => nearestWhole_mono) h

/-! ## Indices -/

/-- A clipped number is in its range. -/
theorem clipInt_mem {lo hi : Int} (hrange : lo ≤ hi) (hx : x.isNaN = false) :
    lo ≤ clipInt lo hi x ∧ clipInt lo hi x ≤ hi := by
  unfold clipInt
  rw [hx]
  simp only [Bool.false_eq_true, if_false]
  split
  · split <;> omega
  · split
    · omega
    · split <;> omega

/-- The integer part keeps the order. -/
theorem clipInt_le_clipInt {lo hi : Int} (hrange : lo ≤ hi) (h : x.le y = true) :
    clipInt lo hi x ≤ clipInt lo hi y := by
  obtain ⟨hx, hy⟩ := isNaN_of_le h
  have hone : (0 : Int) < unitsPerOne := Int.natCast_pos.mpr unitsPerOne_pos
  have hrank := rank_le_of_le h
  rcases finite_or_infinity hx with hxfinite | rfl | rfl
  · rcases finite_or_infinity hy with hyfinite | rfl | rfl
    · have hle := Int.tdiv_le_tdiv hone (units_mono hrank)
      unfold clipInt
      rw [hx, hy, isInfinite_of_isFinite hxfinite, isInfinite_of_isFinite hyfinite]
      simp only [Bool.false_eq_true, if_false]
      grind
    · have hlt := (rank_lt_infinity hxfinite).1
      omega
    · exact (clipInt_mem hrange hx).2
  · exact (clipInt_mem hrange hy).1
  · rcases finite_or_infinity hy with hyfinite | rfl | rfl
    · have hlt := (rank_lt_infinity hyfinite).2
      omega
    · exact absurd hrank (by decide)
    · exact Int.le_refl _

end Seismic.Binary64
