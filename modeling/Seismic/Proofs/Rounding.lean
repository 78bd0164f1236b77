import Mathlib.Algebra.Group.Nat.Defs
import Seismic.Proofs.Binary64Order

/-!
# Rounding — the ranks of rounded values

Every result is computed exactly and then rounded once. Rounding picks a code, and the code is
monotone in the exact value, so that the ranks of results can be compared without looking at bits.

* **`Binary64.roundHalfEven_mono`**, **`nearestCode_mono`**: rounding to a whole number, and to the
  nearest code, is monotone in the quotient;
* **`Binary64.units_mono`**: the order of ranks is that of exact values;
* **`Binary64.roundedRank`** is the rank that a signed quotient is rounded to, and **`rank_add`**,
  **`rank_mul`** and **`rank_toWhole`** give the ranks of results by it.
-/

namespace Seismic.Binary64

/-! ## Rounding a quotient -/

section Quotients

variable {n d n' d' : Nat}

/-- Quotients are compared crosswise. -/
theorem div_le_div_of_cross (hd : 0 < d) (hd' : 0 < d') (h : n * d' ≤ n' * d) :
    n / d ≤ n' / d' := by
  rw [Nat.le_div_iff_mul_le hd']
  refine Nat.le_of_mul_le_mul_right ?_ hd
  calc n / d * d' * d = n / d * d * d' := Nat.mul_right_comm _ _ _
    _ ≤ n * d' := Nat.mul_le_mul_right d' (Nat.div_mul_le_self n d)
    _ ≤ n' * d := h

/-- A remainder of less than half is dropped, of more is filled up, and half goes to the even side.
-/
theorem roundHalfEven_cases (n d : Nat) :
    roundHalfEven n d = n / d ∧ 2 * (n % d) < d ∨
      roundHalfEven n d = n / d + 1 ∧ d < 2 * (n % d) ∨
      roundHalfEven n d = n / d + n / d % 2 ∧ 2 * (n % d) = d := by
  unfold roundHalfEven
  dsimp only
  split
  · next hbelow => exact .inl ⟨rfl, hbelow⟩
  · next hnot =>
    split
    · next habove => exact .inr (.inl ⟨rfl, habove⟩)
    · exact .inr (.inr ⟨rfl, by omega⟩)

theorem div_le_roundHalfEven (n d : Nat) : n / d ≤ roundHalfEven n d := by
  have hcases := roundHalfEven_cases n d
  omega

theorem roundHalfEven_le (n d : Nat) : roundHalfEven n d ≤ n / d + 1 := by
  have hcases := roundHalfEven_cases n d
  omega

/-- Rounding to a whole number keeps the order. -/
theorem roundHalfEven_mono (hd : 0 < d) (hd' : 0 < d') (h : n * d' ≤ n' * d) :
    roundHalfEven n d ≤ roundHalfEven n' d' := by
  rcases Nat.lt_or_eq_of_le (div_le_div_of_cross hd hd' h) with hlt | heq
  · exact Nat.le_trans (roundHalfEven_le n d) (Nat.le_trans hlt (div_le_roundHalfEven n' d'))
  · -- With the same whole part the remainders decide, measured in their denominators.
    have hrest : n % d * d' ≤ n' % d' * d := by
      have hn : n * d' = n / d * (d * d') + n % d * d' := by
        rw [← Nat.mul_assoc, ← Nat.add_mul, Nat.div_add_mod']
      have hn' : n' * d = n / d * (d * d') + n' % d' * d := by
        rw [heq, Nat.mul_comm d, ← Nat.mul_assoc, ← Nat.add_mul, Nat.div_add_mod']
      omega
    have hhalf : d ≤ 2 * (n % d) → d' ≤ 2 * (n' % d') := by
      intro hle
      refine Nat.le_of_mul_le_mul_left ?_ hd
      calc d * d' ≤ 2 * (n % d) * d' := Nat.mul_le_mul_right d' hle
        _ = 2 * (n % d * d') := Nat.mul_assoc _ _ _
        _ ≤ 2 * (n' % d' * d) := Nat.mul_le_mul_left 2 hrest
        _ = d * (2 * (n' % d')) := by rw [Nat.mul_comm d, Nat.mul_assoc]
    have habove : d < 2 * (n % d) → d' < 2 * (n' % d') := by
      intro hlt
      refine Nat.lt_of_mul_lt_mul_left (a := d) ?_
      calc d * d' < 2 * (n % d) * d' := Nat.mul_lt_mul_of_pos_right hlt hd'
        _ = 2 * (n % d * d') := Nat.mul_assoc _ _ _
        _ ≤ 2 * (n' % d' * d) := Nat.mul_le_mul_left 2 hrest
        _ = d * (2 * (n' % d')) := by rw [Nat.mul_comm d, Nat.mul_assoc]
    have hcases := roundHalfEven_cases n d
    have hcases' := roundHalfEven_cases n' d'
    omega

/-- The bits that are rounded off leave less than `2 ^ 53`. -/
theorem div_shifted_lt (n d : Nat) : n / (d * 2 ^ ((n / d).log2 - 52)) < 2 ^ 53 := by
  rw [← Nat.div_div_eq_div_mul, Nat.div_lt_iff_lt_mul (Nat.two_pow_pos _), ← Nat.pow_add]
  refine Nat.lt_of_lt_of_le Nat.lt_log2_self ?_
  exact Nat.pow_le_pow_right Nat.two_pos (by omega)

/-- If any are rounded off they leave at least `2 ^ 52`. -/
theorem le_div_shifted (h : 0 < (n / d).log2 - 52) :
    2 ^ 52 ≤ n / (d * 2 ^ ((n / d).log2 - 52)) := by
  have hlog : 52 + ((n / d).log2 - 52) = (n / d).log2 := by omega
  have hne : n / d ≠ 0 := by
    intro hzero
    rw [hzero] at h
    exact absurd h (by decide)
  rw [← Nat.div_div_eq_div_mul, Nat.le_div_iff_mul_le (Nat.two_pow_pos _), ← Nat.pow_add, hlog]
  exact Nat.log2_self_le hne

theorem log2_mono {m m' : Nat} (h : m ≤ m') : m.log2 ≤ m'.log2 := by
  by_cases hzero : m = 0
  · rw [hzero]
    exact Nat.zero_le _
  · have hm' : m' ≠ 0 := by omega
    rw [Nat.le_log2 hm']
    exact Nat.le_trans (Nat.log2_self_le hzero) h

/-- **Rounding to the nearest code keeps the order.** -/
theorem nearestCode_mono (hd : 0 < d) (hd' : 0 < d') (h : n * d' ≤ n' * d) :
    nearestCode n d ≤ nearestCode n' d' := by
  -- The greater quotient has no fewer bits, so no fewer of them are rounded off.
  have hshift : (n / d).log2 - 52 ≤ (n' / d').log2 - 52 :=
    Nat.sub_le_sub_right (log2_mono (div_le_div_of_cross hd hd' h)) 52
  unfold nearestCode
  simp only [Nat.pow_eq]
  rcases Nat.lt_or_eq_of_le hshift with hlt | heq
  · -- The lesser one at most carries into the block in which the other one is.
    have hlow := Nat.le_trans (roundHalfEven_le n (d * 2 ^ ((n / d).log2 - 52)))
      (div_shifted_lt n d)
    have hhigh := Nat.le_trans (le_div_shifted (show 0 < (n' / d').log2 - 52 by omega))
      (div_le_roundHalfEven n' (d' * 2 ^ ((n' / d').log2 - 52)))
    omega
  · rw [heq]
    refine Nat.add_le_add_left (roundHalfEven_mono ?_ ?_ ?_) _
    · exact Nat.mul_pos hd (Nat.two_pow_pos _)
    · exact Nat.mul_pos hd' (Nat.two_pow_pos _)
    · rw [← Nat.mul_assoc, ← Nat.mul_assoc]
      exact Nat.mul_le_mul_right _ h

theorem nearestCode_zero (d : Nat) : nearestCode 0 d = 0 := by
  have hshift : (0 / d).log2 - 52 = 0 := by
    rw [Nat.zero_div]
    decide
  have hcases := roundHalfEven_cases 0 (d * Nat.pow 2 0)
  rw [Nat.zero_div, Nat.zero_mod] at hcases
  unfold nearestCode
  dsimp only
  rw [hshift]
  omega

end Quotients

/-! ## Exact values -/

theorem magnitude_of_code {x : Binary64} (h : x.code = 0) : x.magnitude = 0 := by
  unfold magnitude
  rw [h]
  rfl

/-- A greater code stands for a magnitude that is not less. -/
theorem magnitude_mono {x y : Binary64} (h : x.code ≤ y.code) : x.magnitude ≤ y.magnitude := by
  have hpow : Nat.pow 2 52 = 4503599627370496 := rfl
  unfold magnitude
  simp only [hpow]
  -- Codes come in blocks of `2 ^ 52`. From the third on each block has twice the step of the last.
  by_cases hx : x.code / 4503599627370496 = 0
  · rw [if_pos hx]
    split
    · exact h
    · refine Nat.le_trans ?_ (Nat.le_mul_of_pos_right _ (Nat.pow_pos Nat.two_pos))
      omega
  · have hy : y.code / 4503599627370496 ≠ 0 := by omega
    rw [if_neg hx, if_neg hy]
    rcases Nat.lt_or_eq_of_le (Nat.div_le_div_right (c := 4503599627370496) h) with hlt | heq
    · -- The block further on begins where the other one ends, or above.
      have hexp : x.code / 4503599627370496 - 1 + 1 ≤ y.code / 4503599627370496 - 1 := by omega
      calc (4503599627370496 + x.code % 4503599627370496) * 2 ^ (x.code / 4503599627370496 - 1)
          ≤ (4503599627370496 * 2) * 2 ^ (x.code / 4503599627370496 - 1) :=
            Nat.mul_le_mul_right _ (by omega)
        _ = 4503599627370496 * 2 ^ (x.code / 4503599627370496 - 1 + 1) := by
            rw [Nat.mul_assoc, Nat.pow_succ']
        _ ≤ (4503599627370496 + y.code % 4503599627370496) *
              2 ^ (y.code / 4503599627370496 - 1) :=
            Nat.mul_le_mul (by omega) (Nat.pow_le_pow_right Nat.two_pos hexp)
    · rw [← heq]
      refine Nat.mul_le_mul_right _ ?_
      omega

/-- **The order of ranks is that of exact values**, as far as rounding may blur it. -/
theorem units_mono {x y : Binary64} (h : x.rank ≤ y.rank) : x.units ≤ y.units := by
  unfold rank at h
  unfold units
  cases hxsign : x.negative <;> cases hysign : y.negative <;>
    simp only [hxsign, hysign, Bool.false_eq_true, if_true, if_false] at h ⊢
  · have hmagnitude := magnitude_mono (show x.code ≤ y.code by omega)
    omega
  · -- A number that is not negative is at most one that is only if both are zero.
    rw [magnitude_of_code (show x.code = 0 by omega), magnitude_of_code (show y.code = 0 by omega)]
    exact Int.le_refl _
  · omega
  · have hmagnitude := magnitude_mono (show y.code ≤ x.code by omega)
    omega

theorem units_nonneg {x : Binary64} (h : 0 ≤ x.rank) : 0 ≤ x.units :=
  units_mono (x := zero false) h

/-! ## Rounding an exact value -/

/-- The rank of the number that is nearest to `num / d` units. -/
def roundedRank (num : Int) (d : Nat) : Int :=
  if num < 0 then -((nearest true num.natAbs d).code : Int) else (nearest false num.natAbs d).code

theorem code_nearest_le {m d m' d' : Nat} (hd : 0 < d) (hd' : 0 < d') (h : m * d' ≤ m' * d)
    (negative : Bool) : (nearest negative m d).code ≤ (nearest negative m' d').code :=
  Nat.le_min.mpr
    ⟨Nat.le_trans (Nat.min_le_left _ _) (nearestCode_mono hd hd' h), Nat.min_le_right _ _⟩

theorem code_nearest_zero (negative : Bool) (d : Nat) : (nearest negative 0 d).code = 0 := by
  unfold nearest
  dsimp only
  rw [nearestCode_zero]
  exact Nat.zero_min _

/-- Of two quotients the greater one has no lesser rank. -/
theorem roundedRank_le {num num' : Int} {d d' : Nat} (hd : 0 < d) (hd' : 0 < d')
    (h : num * d' ≤ num' * d) : roundedRank num d ≤ roundedRank num' d' := by
  have hnonneg {m : Int} (hm : 0 ≤ m) (e : Nat) : 0 ≤ m * e :=
    Int.mul_nonneg hm (Int.natCast_nonneg e)
  unfold roundedRank
  -- Signs are compared first. Of two negative quotients the greater one has the lesser magnitude.
  split
  · next hnum =>
    split
    · next hnum' =>
      have hcross : num'.natAbs * d ≤ num.natAbs * d' := by
        have habs : (num.natAbs : Int) = -num := by omega
        have habs' : (num'.natAbs : Int) = -num' := by omega
        refine Int.ofNat_le.mp ?_
        rw [Int.natCast_mul, Int.natCast_mul, habs, habs', Int.neg_mul, Int.neg_mul]
        exact Int.neg_le_neg h
      have hle := code_nearest_le hd' hd hcross true
      omega
    · omega
  · next hnum =>
    split
    · next hnum' =>
      have hleft := hnonneg (Int.not_lt.mp hnum) d'
      have hright := Int.mul_neg_of_neg_of_pos hnum' (Int.natCast_pos.mpr hd)
      omega
    · next hnum' =>
      have hcross : num.natAbs * d' ≤ num'.natAbs * d := by
        have habs : (num.natAbs : Int) = num := by omega
        have habs' : (num'.natAbs : Int) = num' := by omega
        refine Int.ofNat_le.mp ?_
        rw [Int.natCast_mul, Int.natCast_mul, habs, habs']
        exact h
      exact Int.ofNat_le.mpr (code_nearest_le hd hd' hcross false)

theorem roundedRank_mono {num num' : Int} {d : Nat} (hd : 0 < d) (h : num ≤ num') :
    roundedRank num d ≤ roundedRank num' d :=
  roundedRank_le hd hd (Int.mul_le_mul_of_nonneg_right h (Int.natCast_nonneg d))

theorem roundedRank_zero (d : Nat) : roundedRank 0 d = 0 := by
  unfold roundedRank
  rw [Int.natAbs_zero, code_nearest_zero, code_nearest_zero]
  rfl

/-- Rounding to nearest gives the rank that the sign says. At zero either sign will do. -/
theorem rank_nearest {negative : Bool} {num : Int} (d : Nat)
    (hsign : num ≠ 0 → negative = decide (num < 0)) :
    (nearest negative num.natAbs d).rank = roundedRank num d := by
  by_cases hzero : num = 0
  · subst hzero
    rw [roundedRank_zero, rank, Int.natAbs_zero, code_nearest_zero]
    simp
  · rw [hsign hzero, rank, roundedRank]
    simp only [nearest, decide_eq_true_eq]

/-- **The rank of a sum** is that of the exact sum, rounded. -/
theorem rank_add {x y : Binary64} (hx : x.isFinite = true) (hy : y.isFinite = true) :
    (x.add y).rank = roundedRank (x.units + y.units) 1 := by
  unfold add
  rw [isNaN_of_isFinite hx, isNaN_of_isFinite hy, isInfinite_of_isFinite hx,
    isInfinite_of_isFinite hy]
  simp only [Bool.or_self, Bool.false_eq_true, if_false]
  split
  · next hzero =>
    rw [hzero, roundedRank_zero, rank]
    simp [zero]
  · exact rank_nearest 1 fun _ => rfl

/-- The sign of an exact value. -/
theorem negative_of_units {x : Binary64} (h : x.units ≠ 0) : x.negative = decide (x.units < 0) := by
  unfold units at h ⊢
  cases hnegative : x.negative with
  | false => simp
  | true =>
    rw [hnegative, if_pos rfl] at h
    rw [if_pos rfl, eq_comm, decide_eq_true_eq]
    omega

theorem natAbs_units (x : Binary64) : x.units.natAbs = x.magnitude := by
  unfold units
  split <;> omega

/-- A product is negative if its factors have different signs. -/
theorem mul_negative {m n : Int} (hm : m ≠ 0) (hn : n ≠ 0) :
    decide (m * n < 0) = (decide (m < 0) != decide (n < 0)) := by
  rcases Int.lt_or_gt_of_ne hm with hm | hm <;> rcases Int.lt_or_gt_of_ne hn with hn | hn
  · have hproduct := Int.le_of_lt (Int.mul_pos_of_neg_of_neg hm hn)
    rw [decide_eq_true hm, decide_eq_true hn, decide_eq_false (Int.not_lt.mpr hproduct)]
    rfl
  · have hproduct := Int.mul_neg_of_neg_of_pos hm hn
    have hnot := Int.not_lt.mpr (Int.le_of_lt hn)
    rw [decide_eq_true hm, decide_eq_false hnot, decide_eq_true hproduct]
    rfl
  · have hproduct := Int.mul_neg_of_pos_of_neg hm hn
    have hnot := Int.not_lt.mpr (Int.le_of_lt hm)
    rw [decide_eq_false hnot, decide_eq_true hn, decide_eq_true hproduct]
    rfl
  · have hproduct := Int.le_of_lt (Int.mul_pos hm hn)
    have hmnot := Int.not_lt.mpr (Int.le_of_lt hm)
    have hnnot := Int.not_lt.mpr (Int.le_of_lt hn)
    rw [decide_eq_false hmnot, decide_eq_false hnnot, decide_eq_false (Int.not_lt.mpr hproduct)]
    rfl

/-- **The rank of a product.** -/
theorem rank_mul {x y : Binary64} (hx : x.isFinite = true) (hy : y.isFinite = true) :
    (x.mul y).rank = roundedRank (x.units * y.units) unitsPerOne := by
  unfold mul
  rw [isNaN_of_isFinite hx, isNaN_of_isFinite hy, isInfinite_of_isFinite hx,
    isInfinite_of_isFinite hy]
  simp only [Bool.or_self, Bool.false_eq_true, if_false]
  rw [← natAbs_units x, ← natAbs_units y, ← Int.natAbs_mul]
  refine rank_nearest _ fun hne => ?_
  obtain ⟨hxne, hyne⟩ := Int.mul_ne_zero_iff.mp hne
  rw [negative_of_units hxne, negative_of_units hyne, mul_negative hxne hyne]

theorem unitsPerOne_pos : 0 < unitsPerOne := by decide +kernel

/-- The rank of a whole number that is picked by the exact value. -/
theorem rank_toWhole {whole : Binary64 → Int} {pick : Int → Int} {x : Binary64}
    (hx : x.isFinite = true) (hwhole : whole x = pick x.units) (hzero : pick 0 = 0)
    (hmono : ∀ m n, m ≤ n → pick m ≤ pick n) :
    (toWhole whole x).rank = roundedRank (pick x.units * unitsPerOne) 1 := by
  have habs : (pick x.units).natAbs * unitsPerOne = (pick x.units * unitsPerOne).natAbs := by
    rw [Int.natAbs_mul, Int.natAbs_natCast]
  have hone : (0 : Int) < unitsPerOne := Int.natCast_pos.mpr unitsPerOne_pos
  unfold toWhole
  rw [if_pos hx, hwhole, habs]
  refine rank_nearest 1 fun hne => ?_
  have hpick : pick x.units ≠ 0 := (Int.mul_ne_zero_iff.mp hne).1
  have hunits : x.units ≠ 0 := fun h => hpick (h ▸ hzero)
  rw [negative_of_units hunits]
  -- What is picked has the sign of the exact value.
  rcases Int.lt_or_gt_of_ne hunits with hneg | hpos
  · have hle := hmono x.units 0 (Int.le_of_lt hneg)
    have hproduct := Int.mul_neg_of_neg_of_pos (by omega : pick x.units < 0) hone
    rw [decide_eq_true hneg, decide_eq_true hproduct]
  · have hle := hmono 0 x.units (Int.le_of_lt hpos)
    have hproduct := Int.le_of_lt (Int.mul_pos (by omega : 0 < pick x.units) hone)
    have hnot := Int.not_lt.mpr (Int.le_of_lt hpos)
    rw [decide_eq_false hnot, decide_eq_false (Int.not_lt.mpr hproduct)]

/-! ## Rounding to whole numbers -/

/-- The whole number nearest to a number of units, a half upwards. -/
def halfUp (units : Nat) : Nat := (2 * units + unitsPerOne) / (2 * unitsPerOne)

theorem halfUp_mono {m n : Nat} (h : m ≤ n) : halfUp m ≤ halfUp n :=
  Nat.div_le_div_right (by omega)

theorem halfUp_zero : halfUp 0 = 0 := by
  have hone := unitsPerOne_pos
  exact Nat.div_eq_of_lt (by omega)

/-- The whole number nearest to an exact value, a half away from zero. -/
def nearestWhole (units : Int) : Int :=
  if units < 0 then -(halfUp units.natAbs : Int) else halfUp units.natAbs

theorem nearestWhole_mono {m n : Int} (h : m ≤ n) : nearestWhole m ≤ nearestWhole n := by
  unfold nearestWhole
  split
  · split
    · have hle := halfUp_mono (show n.natAbs ≤ m.natAbs by omega)
      omega
    · omega
  · split
    · omega
    · have hle := halfUp_mono (show m.natAbs ≤ n.natAbs by omega)
      omega

/-- Rounding looks at the exact value alone. -/
theorem roundInt_eq (x : Binary64) : x.roundInt = nearestWhole x.units := by
  by_cases hzero : x.units = 0
  · have hmagnitude : x.magnitude = 0 := by rw [← natAbs_units, hzero, Int.natAbs_zero]
    have hhalf : (2 * 0 + unitsPerOne) / (2 * unitsPerOne) = 0 := halfUp_zero
    unfold roundInt nearestWhole
    dsimp only
    rw [hmagnitude, hzero, Int.natAbs_zero, halfUp_zero, hhalf]
    simp
  · unfold roundInt nearestWhole
    rw [negative_of_units hzero, natAbs_units]
    simp only [decide_eq_true_eq, halfUp]

end Seismic.Binary64
