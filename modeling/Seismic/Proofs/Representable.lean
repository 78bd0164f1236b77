import Seismic.Proofs.Binary64Arithmetic

/-!
# Representable — what rounding leaves alone

Rounding changes nothing that is a number already. So a bound by a number is kept when an exact value
is rounded, and whole numbers below `2 ^ 53` are exact.

* **`Binary64.nearestCode_scaled`**: a significand of 53 bits, scaled by a power of two, is rounded
  to its own code;
* **`Binary64.roundedRank_units`**: the exact value of a number is rounded to the number;
* **`Binary64.le_add`**: a sum is not below a summand if the other one is not negative;
* **`Binary64.ofNat_add`**, **`div_ofNat_le`**: sums and quotients of natural numbers;
* **`Binary64.div_ofNat_double`**: a quotient stays the same if both numbers are doubled;
* **`Binary64.le_toIndex`**, **`toIndex_le`**: what a bound by a natural number says of an index.
-/

namespace Seismic.Binary64

variable {x y a : Binary64}

/-! ## Significands

Codes below `2 ^ 53` are their own magnitudes. From there on a code is a scale and a significand
between `2 ^ 52` and `2 ^ 53`, and rounding finds both again. -/

/-- A whole quotient is not rounded. -/
theorem roundHalfEven_mul (q : Nat) {d : Nat} (hd : 0 < d) : roundHalfEven (q * d) d = q := by
  have hcases := roundHalfEven_cases (q * d) d
  rw [Nat.mul_div_cancel q hd, Nat.mul_mod_left] at hcases
  omega

/-- Small magnitudes are their own codes. -/
theorem nearestCode_of_lt {n : Nat} (h : n < 2 ^ 53) : nearestCode n 1 = n := by
  have hshift : n.log2 - 52 = 0 := by
    by_cases hzero : n = 0
    · rw [hzero]
      rfl
    · have hlog := (Nat.log2_lt hzero).mpr h
      omega
  have hwhole := roundHalfEven_mul n Nat.one_pos
  rw [Nat.mul_one] at hwhole
  unfold nearestCode
  dsimp only
  rw [Nat.div_one, hshift, Nat.zero_mul, Nat.zero_add]
  exact hwhole

/-- **A scaled significand is rounded to its own code.** -/
theorem nearestCode_scaled {q : Nat} (hlow : 2 ^ 52 ≤ q) (hhigh : q < 2 ^ 53) (s : Nat) :
    nearestCode (q * 2 ^ s) 1 = s * 2 ^ 52 + q := by
  have hpos : 0 < 2 ^ s := Nat.two_pow_pos s
  have hlog : (q * 2 ^ s).log2 = 52 + s := by
    have hne : q * 2 ^ s ≠ 0 := Nat.mul_ne_zero (by omega) (by omega)
    refine (Nat.log2_eq_iff hne).mpr ⟨?_, ?_⟩
    · rw [Nat.pow_add]
      exact Nat.mul_le_mul_right _ hlow
    · rw [show 52 + s + 1 = 53 + s by omega, Nat.pow_add]
      exact Nat.mul_lt_mul_of_pos_right hhigh hpos
  unfold nearestCode
  simp only [Nat.div_one, hlog, Nat.add_sub_cancel_left, Nat.one_mul, Nat.pow_eq]
  rw [roundHalfEven_mul q hpos]

/-- And the code stands for the scaled significand. -/
theorem magnitude_of_significand {q s : Nat} (hlow : 2 ^ 52 ≤ q) (hhigh : q < 2 ^ 53)
    (hcode : x.code = s * 2 ^ 52 + q) : x.magnitude = q * 2 ^ s := by
  have hblock : x.code / 2 ^ 52 = s + 1 := by omega
  have hrest : 2 ^ 52 + x.code % 2 ^ 52 = q := by omega
  unfold magnitude
  dsimp only
  simp only [Nat.pow_eq]
  rw [hblock, hrest, if_neg (Nat.succ_ne_zero s), Nat.add_sub_cancel]

/-- A natural number below `2 ^ 53` in units, with its leading zeros taken out of the scale. -/
theorem exists_significand {n e : Nat} (hne : n ≠ 0) (h : n < 2 ^ 53) (he : 52 ≤ e) :
    ∃ q s, 2 ^ 52 ≤ q ∧ q < 2 ^ 53 ∧ s = n.log2 + (e - 52) ∧ n * 2 ^ e = q * 2 ^ s := by
  have hlog := (Nat.log2_lt hne).mpr h
  refine ⟨n * 2 ^ (52 - n.log2), n.log2 + (e - 52), ?_, ?_, rfl, ?_⟩
  · calc 2 ^ 52 = 2 ^ n.log2 * 2 ^ (52 - n.log2) := by
          rw [← Nat.pow_add, show n.log2 + (52 - n.log2) = 52 by omega]
      _ ≤ n * 2 ^ (52 - n.log2) := Nat.mul_le_mul_right _ (Nat.log2_self_le hne)
  · calc n * 2 ^ (52 - n.log2) < 2 ^ (n.log2 + 1) * 2 ^ (52 - n.log2) :=
          Nat.mul_lt_mul_of_pos_right Nat.lt_log2_self (Nat.two_pow_pos _)
      _ = 2 ^ 53 := by rw [← Nat.pow_add, show n.log2 + 1 + (52 - n.log2) = 53 by omega]
  · rw [Nat.mul_assoc, ← Nat.pow_add,
      show 52 - n.log2 + (n.log2 + (e - 52)) = e by omega]

/-- So every code is found again from its magnitude. -/
theorem nearestCode_magnitude (x : Binary64) : nearestCode x.magnitude 1 = x.code := by
  unfold magnitude
  dsimp only
  simp only [Nat.pow_eq]
  -- Codes of the first block have no scale; the others have a significand and a scale.
  split
  · next hzero =>
    refine nearestCode_of_lt ?_
    omega
  · next hblock =>
    have hrest := Nat.mod_lt x.code (Nat.two_pow_pos 52)
    rw [nearestCode_scaled (by omega) (by omega)]
    omega

/-- And every number from its sign and its magnitude. -/
theorem nearest_magnitude (hx : x.isNaN = false) : nearest x.negative x.magnitude 1 = x := by
  have hcode := (isNaN_eq_false_iff x).mp hx
  have hmin : Nat.min (nearestCode x.magnitude 1) infinityCode = x.code := by
    rw [nearestCode_magnitude]
    exact Nat.min_eq_left hcode
  rcases x with ⟨negative, code, hlt⟩
  unfold nearest
  congr

/-- **The exact value of a number is rounded to the number.** -/
theorem roundedRank_units (hx : x.isNaN = false) : roundedRank x.units 1 = x.rank := by
  rw [← rank_nearest 1 (negative_of_units (x := x)), natAbs_units, nearest_magnitude hx]

/-- A number of rank below another's is below it in exact value. -/
theorem units_lt_units (hx : x.isNaN = false) (hy : y.isNaN = false) (h : x.rank < y.rank) :
    x.units < y.units := by
  refine Int.lt_of_not_ge fun hle => ?_
  have hrank := roundedRank_mono Nat.one_pos hle
  rw [roundedRank_units hx, roundedRank_units hy] at hrank
  omega

/-! ## Sums -/

/-- **Sums do not depend on the order of the summands.** -/
theorem add_comm (x y : Binary64) : x + y = y + x := by
  cases hx : x.isNaN with
  | true => rw [nan_add hx, add_nan y hx]
  | false =>
    cases hy : y.isNaN with
    | true => rw [add_nan x hy, nan_add hy]
    | false =>
      -- For finite numbers the exact sum decides; an infinity wins over a finite number, and two of
      -- different signs cancel in either order.
      rcases finite_or_infinity hx with hxfinite | rfl | rfl
      · rcases finite_or_infinity hy with hyfinite | rfl | rfl
        · show x.add y = y.add x
          unfold add
          rw [hx, hy, isInfinite_of_isFinite hxfinite, isInfinite_of_isFinite hyfinite,
            Int.add_comm x.units, Bool.and_comm x.negative]
          rfl
        · rw [add_infinity hxfinite, infinity_add true hxfinite]
        · rw [add_infinity hxfinite, infinity_add false hxfinite]
      · rcases finite_or_infinity hy with hyfinite | rfl | rfl
        · rw [add_infinity hyfinite, infinity_add true hyfinite]
        · rfl
        · decide
      · rcases finite_or_infinity hy with hyfinite | rfl | rfl
        · rw [add_infinity hyfinite, infinity_add false hyfinite]
        · decide
        · rfl

/-- **A sum is not below a summand if the other one is not negative.** -/
theorem le_add (ha : (zero false).le a = true) (hsum : (x + a).isNaN = false) :
    x.le (x + a) = true := by
  cases hx : x.isNaN with
  | true =>
    rw [nan_add hx] at hsum
    cases hsum
  | false =>
    have hafinite := finite_or_infinity_of_le (.inl (show (zero false).isFinite = true from rfl)) ha
    rcases finite_or_infinity hx with hxfinite | rfl | rfl
    · rcases hafinite with hafinite | rfl
      · have hunits := units_nonneg (rank_le_of_le ha)
        have hmono := roundedRank_mono Nat.one_pos (show x.units ≤ x.units + a.units by omega)
        rw [roundedRank_units hx] at hmono
        rw [le_iff_rank hx hsum, show (x + a).rank = _ from rank_add hxfinite hafinite]
        exact hmono
      · rw [add_infinity hxfinite]
        exact le_infinity hx
    · exact infinity_le hsum
    · rcases hafinite with hafinite | rfl
      · rw [infinity_add false hafinite]
        decide
      · decide

/-- Adding nothing does not move a number. -/
theorem rank_add_zero (hx : x.isFinite = true) : (x + zero false).rank = x.rank := by
  have hzero : (zero false).units = 0 := rfl
  rw [show (x + zero false).rank = _ from rank_add hx rfl, hzero, Int.add_zero,
    roundedRank_units (isNaN_of_isFinite hx)]

theorem add_zero_numEq (hx : x.isFinite = true) : (x + zero false).numEq x = true := by
  have hsum : (x + zero false).isNaN = false := isNaN_add hx rfl
  rw [numEq_iff_rank hsum (isNaN_of_isFinite hx)]
  exact rank_add_zero hx

/-- A number less itself is nothing, if it is a number. -/
theorem rank_sub_self (h : (x - x).isNaN = false) : (x - x).rank = 0 := by
  rcases finite_or_infinity (isNaN_of_sub h).1 with hx | rfl | rfl
  · have hrank : (x - x).rank = roundedRank (x.units + x.neg.units) 1 :=
      rank_add hx (show x.neg.isFinite = true from hx)
    rw [hrank, units_neg, Int.add_right_neg, roundedRank_zero]
  · exact absurd h (by decide)
  · exact absurd h (by decide)

/-- Where something is left after subtracting, the first number was the greater one. -/
theorem lt_of_lt_sub (ha : 0 ≤ a.rank) (h : a.lt (y - x) = true) : x.lt y = true := by
  have hnumber := (isNaN_of_le (le_of_lt h)).2
  have hlt := rank_lt_of_lt h
  obtain ⟨hy, hx⟩ := isNaN_of_sub hnumber
  rw [← le_eq_false_iff hy hx, Bool.eq_false_iff]
  intro hle
  rcases sub_le_sub_or x hle with hsub | hnan | hbelow
  · have hrank := rank_le_of_le hsub
    rw [rank_sub_self (isNaN_of_le hsub).2] at hrank
    omega
  · rw [hnumber] at hnan
    cases hnan
  · rw [hbelow] at hlt
    exact absurd (Int.lt_of_le_of_lt ha hlt) (by decide)

/-! ## Quotients -/

/-- The sign of a scaled number. -/
theorem mul_unitsPerOne_neg_iff (n : Int) : n * unitsPerOne < 0 ↔ n < 0 := by
  have hone : (0 : Int) < unitsPerOne := Int.natCast_pos.mpr unitsPerOne_pos
  constructor
  · intro hproduct
    refine Int.not_le.mp fun hle => ?_
    have hnonneg := Int.mul_nonneg hle (Int.le_of_lt hone)
    omega
  · exact fun hneg => Int.mul_neg_of_neg_of_pos hneg hone

/-- A positive number has a magnitude to divide by. -/
theorem magnitude_pos (ha : a.isFinite = true) (hpos : 0 < a.rank) : 0 < a.magnitude := by
  have hunits : (zero false).units < a.units :=
    units_lt_units rfl (isNaN_of_isFinite ha) hpos
  rw [← natAbs_units]
  have hzero : (zero false).units = 0 := rfl
  omega

section Divisor

variable (ha : a.isFinite = true) (hpos : 0 < a.rank)
include ha hpos

theorem infinity_div (negative : Bool) : infinity negative / a = infinity negative := by
  have hnumber : (infinity negative).isNaN = false := rfl
  have hinfinite : (infinity negative).isInfinite = true := rfl
  show (infinity negative).div a = infinity negative
  unfold div
  rw [hnumber, isNaN_of_isFinite ha, hinfinite, isInfinite_of_isFinite ha,
    negative_of_rank_pos hpos]
  cases negative <;> rfl

/-- A quotient of finite numbers is rounded once. -/
theorem div_eq_nearest (hx : x.isFinite = true) :
    x / a = nearest x.negative (x.magnitude * unitsPerOne) a.magnitude := by
  have hcode : a.code ≠ 0 := by
    have hbounds := a.rank_bounds
    omega
  show x.div a = _
  unfold div
  rw [isNaN_of_isFinite hx, isNaN_of_isFinite ha, isInfinite_of_isFinite hx,
    isInfinite_of_isFinite ha, negative_of_rank_pos hpos]
  simp only [Bool.or_self, Bool.false_eq_true, if_false, if_neg hcode, Bool.bne_false]

/-- **The rank of a quotient.** -/
theorem rank_div (hx : x.isFinite = true) :
    (x / a).rank = roundedRank (x.units * unitsPerOne) a.magnitude := by
  rw [div_eq_nearest ha hpos hx, ← natAbs_units x, ← Int.natAbs_natCast unitsPerOne,
    ← Int.natAbs_mul, Int.natAbs_natCast]
  refine rank_nearest _ fun hne => ?_
  have hunits : x.units ≠ 0 := (Int.mul_ne_zero_iff.mp hne).1
  rw [negative_of_units hunits, decide_eq_decide]
  exact (mul_unitsPerOne_neg_iff x.units).symm

/-- Dividing by a positive number keeps the order. -/
theorem div_le_div (h : x.le y = true) : (x / a).le (y / a) = true := by
  have hone : (0 : Int) ≤ unitsPerOne := Int.natCast_nonneg _
  have hfinite (x : Binary64) (hx : x.isFinite = true) : (x / a).isNaN = false ∧
      (x / a).rank = roundedRank (x.units * unitsPerOne) a.magnitude := by
    refine ⟨?_, rank_div ha hpos hx⟩
    rw [div_eq_nearest ha hpos hx]
    exact isNaN_nearest _ _ _
  exact le_of_rounded (f := (· / a)) (magnitude_pos ha hpos)
    (fun m n hmn => Int.mul_le_mul_of_nonneg_right hmn hone) hfinite
    (fun negative => infinity_div ha hpos negative) h

theorem zero_div : zero false / a = zero false := by
  have hmagnitude : (zero false).magnitude = 0 := magnitude_of_code rfl
  rw [div_eq_nearest ha hpos rfl, hmagnitude, Nat.zero_mul]
  exact eq_zero_of_code rfl (code_nearest_zero false a.magnitude)

end Divisor

/-! ## Natural numbers -/

/-- The rank of a natural number. -/
theorem rank_ofNat (n : Nat) : (ofNat n).rank = roundedRank ((n * unitsPerOne : Nat) : Int) 1 := by
  have hsign : false = decide (((n * unitsPerOne : Nat) : Int) < 0) :=
    (decide_eq_false (Int.not_lt.mpr (Int.natCast_nonneg _))).symm
  show (nearest false ((n * unitsPerOne : Nat) : Int).natAbs 1).rank = _
  exact rank_nearest 1 fun _ => hsign

theorem scalar_ofNat (n : Nat) : (Scalar.ofNat n : Binary64) = ofNat n := by
  show nearest (decide ((n : Int) < 0)) (n * unitsPerOne) 1 = nearest false (n * unitsPerOne) 1
  rw [decide_eq_false (Int.not_lt.mpr (Int.natCast_nonneg n))]

/-- Positive by comparison, positive by rank. -/
theorem rank_pos_of_lt (h : (0 : Binary64).lt x = true) : 0 < x.rank := by
  have hzero : (0 : Binary64).rank = 0 := by decide +kernel
  have hlt := rank_lt_of_lt h
  omega

theorem rank_pos_of_not_le_zero (hx : x.isNaN = false)
    (h : Scalar.le x (Scalar.ofInt 0) = false) : 0 < x.rank := by
  have hzero : (Scalar.ofInt 0 : Binary64).isNaN = false ∧ (Scalar.ofInt 0 : Binary64).rank = 0 := by
    decide +kernel
  have hlt := rank_lt_of_lt ((le_eq_false_iff hx hzero.1).mp h)
  omega

theorem isNaN_ofNat (n : Nat) : (ofNat n).isNaN = false := isNaN_nearest _ _ _

theorem ofNat_le_ofNat {m n : Nat} (h : m ≤ n) : (ofNat m).le (ofNat n) = true := by
  rw [le_iff_rank (isNaN_ofNat m) (isNaN_ofNat n), rank_ofNat, rank_ofNat]
  exact roundedRank_mono Nat.one_pos (Int.ofNat_le.mpr (Nat.mul_le_mul_right _ h))

theorem log2_unitsPerOne : unitsPerOne.log2 = 1074 := by decide +kernel

theorem pow_log2_unitsPerOne : 2 ^ unitsPerOne.log2 = unitsPerOne := by decide +kernel

/-- **Natural numbers below `2 ^ 53` are exact.** -/
theorem magnitude_ofNat {n : Nat} (h : n < 2 ^ 53) :
    (ofNat n).isFinite = true ∧ (ofNat n).magnitude = n * unitsPerOne := by
  by_cases hzero : n = 0
  · subst hzero
    decide +kernel
  · have hexp := log2_unitsPerOne
    obtain ⟨q, s, hlow, hhigh, hs, hone⟩ :=
      exists_significand hzero h (show 52 ≤ unitsPerOne.log2 by omega)
    rw [pow_log2_unitsPerOne] at hone
    have hlog := (Nat.log2_lt hzero).mpr h
    have hinfinity : infinityCode = 2047 * 2 ^ 52 := rfl
    -- The significand is not rounded, so its scale and itself are the code.
    have hcode : (ofNat n).code = s * 2 ^ 52 + q := by
      show Nat.min (nearestCode (n * unitsPerOne) 1) infinityCode = _
      rw [hone, nearestCode_scaled hlow hhigh]
      refine Nat.min_eq_left ?_
      omega
    refine ⟨decide_eq_true ?_, ?_⟩
    · rw [hcode]
      omega
    · rw [hone, magnitude_of_significand hlow hhigh hcode]

theorem units_eq_magnitude (h : 0 ≤ x.rank) : x.units = x.magnitude := by
  have hunits := units_nonneg h
  have habs := natAbs_units x
  omega

theorem rank_ofInt (n : Int) : (ofInt n).rank = roundedRank (n * unitsPerOne) 1 := by
  have habs : n.natAbs * unitsPerOne = (n * unitsPerOne).natAbs := by
    rw [Int.natAbs_mul, Int.natAbs_natCast]
  show (nearest (decide (n < 0)) (n.natAbs * unitsPerOne) 1).rank = _
  rw [habs]
  exact rank_nearest 1 fun _ => decide_eq_decide.mpr (mul_unitsPerOne_neg_iff n).symm

/-- Integers are rounded in order. -/
theorem ofInt_le_ofInt {m n : Int} (h : m ≤ n) : (ofInt m).le (ofInt n) = true := by
  have hone : (0 : Int) ≤ unitsPerOne := Int.natCast_nonneg _
  have hnumber (n : Int) : (ofInt n).isNaN = false := isNaN_nearest _ _ _
  rw [le_iff_rank (hnumber m) (hnumber n), rank_ofInt, rank_ofInt]
  exact roundedRank_mono Nat.one_pos (Int.mul_le_mul_of_nonneg_right h hone)

theorem zero_le_ofNat (n : Nat) : (zero false).le (ofNat n) = true := by
  rw [le_iff_rank rfl (isNaN_ofNat n)]
  exact Int.natCast_nonneg (ofNat n).code

/-- **Sums of natural numbers below `2 ^ 53` are exact.** -/
theorem ofNat_add {m n : Nat} (h : m + n < 2 ^ 53) : ofNat m + ofNat n = ofNat (m + n) := by
  obtain ⟨hm, hmagnitude⟩ := magnitude_ofNat (show m < 2 ^ 53 by omega)
  obtain ⟨hn, hnmagnitude⟩ := magnitude_ofNat (show n < 2 ^ 53 by omega)
  have hsum : (ofNat m).units + (ofNat n).units = ((m + n) * unitsPerOne : Nat) := by
    rw [units_eq_magnitude (rank_le_of_le (zero_le_ofNat m)),
      units_eq_magnitude (rank_le_of_le (zero_le_ofNat n)), hmagnitude, hnmagnitude, Nat.add_mul,
      Int.natCast_add]
  show (ofNat m).add (ofNat n) = ofNat (m + n)
  unfold add
  rw [isNaN_ofNat, isNaN_ofNat, isInfinite_of_isFinite hm, isInfinite_of_isFinite hn]
  simp only [Bool.or_self, Bool.false_eq_true, if_false, hsum, Int.natAbs_natCast]
  split
  · next hzero =>
    have hcode : (ofNat (m + n)).code = 0 := by
      rw [ofNat, Int.natCast_eq_zero.mp hzero]
      exact code_nearest_zero false 1
    exact (eq_zero_of_code rfl hcode).symm
  · rw [decide_eq_false (Int.not_lt.mpr (Int.natCast_nonneg _))]
    rfl

theorem rank_ofNat_pos {n : Nat} (h : 0 < n) : 0 < (ofNat n).rank := by
  have hone : 0 < (ofNat 1).rank := by decide +kernel
  exact Int.lt_of_lt_of_le hone (rank_le_of_le (ofNat_le_ofNat h))

theorem div_infinity (hx : x.isFinite = true) (negative : Bool) :
    x / infinity negative = zero (x.negative != negative) := by
  show x.div (infinity negative) = _
  unfold div
  rw [isNaN_of_isFinite hx, isInfinite_of_isFinite hx]
  rfl

theorem zero_le_div (hx : (zero false).le x = true) (hfinite : x.isFinite = true)
    (ha : a.isNaN = false) (hpos : 0 < a.rank) : (zero false).le (x / a) = true := by
  rcases finite_or_infinity ha with hafinite | rfl | rfl
  · have hle := div_le_div hafinite hpos hx
    rwa [zero_div hafinite hpos] at hle
  · exact absurd hpos (by decide)
  · rw [div_infinity hfinite]
    cases x.negative <;> decide

/-- A natural number over a positive one is not negative. -/
theorem zero_le_div_ofNat {n c : Nat} (hc : 0 < c) (hn : n < 2 ^ 53) :
    (zero false).le (ofNat n / ofNat c) = true :=
  zero_le_div (zero_le_ofNat n) (magnitude_ofNat hn).1 (isNaN_ofNat c) (rank_ofNat_pos hc)

/-- A multiple of a natural number is not below what it bounds, when the number has been rounded. -/
theorem mul_unitsPerOne_le {n c m : Nat} (hn : n < 2 ^ 53) (h : n ≤ m * c) :
    n * unitsPerOne ≤ m * (ofNat c).magnitude := by
  by_cases hsmall : c < 2 ^ 53
  · rw [(magnitude_ofNat hsmall).2, ← Nat.mul_assoc]
    exact Nat.mul_le_mul_right _ h
  · -- It is rounded, but not below the greatest number that is not.
    have hlarge : (2 ^ 53 - 1) * unitsPerOne ≤ (ofNat c).magnitude := by
      have hle := units_mono (rank_le_of_le (ofNat_le_ofNat (show 2 ^ 53 - 1 ≤ c by omega)))
      have hexact := (magnitude_ofNat (show 2 ^ 53 - 1 < 2 ^ 53 by omega)).2
      rw [units_eq_magnitude (Int.natCast_nonneg _), units_eq_magnitude (Int.natCast_nonneg _),
        hexact] at hle
      exact Int.ofNat_le.mp hle
    rcases Nat.eq_zero_or_pos m with rfl | hmpos
    · have hzero : n = 0 := by omega
      rw [hzero, Nat.zero_mul]
      exact Nat.zero_le _
    · calc n * unitsPerOne ≤ (2 ^ 53 - 1) * unitsPerOne := Nat.mul_le_mul_right _ (by omega)
        _ ≤ (ofNat c).magnitude := hlarge
        _ ≤ m * (ofNat c).magnitude := Nat.le_mul_of_pos_left _ hmpos

/-- A quotient of natural numbers is rounded to at most what bounds it exactly. -/
theorem div_ofNat_le {n c m : Nat} (hc : 0 < c) (hn : n < 2 ^ 53) (h : n ≤ m * c) :
    (ofNat n / ofNat c).le (ofNat m) = true := by
  obtain ⟨hfinite, hmagnitude⟩ := magnitude_ofNat hn
  have hpos := rank_ofNat_pos hc
  rcases finite_or_infinity (isNaN_ofNat c) with hcfinite | hinfinity | hinfinity
  · have hquotient : ofNat n / ofNat c =
        nearest false (n * unitsPerOne * unitsPerOne) (ofNat c).magnitude := by
      rw [div_eq_nearest hcfinite hpos hfinite, hmagnitude]
      rfl
    have hnumber : (ofNat n / ofNat c).isNaN = false := by
      rw [hquotient]
      exact isNaN_nearest _ _ _
    rw [le_iff_rank hnumber (isNaN_ofNat m), hquotient]
    refine Int.ofNat_le.mpr (code_nearest_le (magnitude_pos hcfinite hpos) Nat.one_pos ?_ false)
    calc n * unitsPerOne * unitsPerOne * 1 = n * unitsPerOne * unitsPerOne := Nat.mul_one _
      _ ≤ m * (ofNat c).magnitude * unitsPerOne :=
          Nat.mul_le_mul_right _ (mul_unitsPerOne_le hn h)
      _ = m * unitsPerOne * (ofNat c).magnitude := Nat.mul_right_comm _ _ _
  · rw [hinfinity] at hpos
    exact absurd hpos (by decide)
  · rw [hinfinity, div_infinity hfinite]
    exact zero_le_ofNat m

/-! ## Twice as much -/

theorem roundHalfEven_twice (n d : Nat) : roundHalfEven (2 * n) (2 * d) = roundHalfEven n d := by
  unfold roundHalfEven
  simp only [Nat.mul_div_mul_left _ _ Nat.two_pos, Nat.mul_mod_mul_left,
    Nat.mul_lt_mul_left Nat.two_pos]

/-- Only the quotient is rounded. -/
theorem nearest_twice (negative : Bool) (n d : Nat) :
    nearest negative (2 * n) (2 * d) = nearest negative n d := by
  have hcode : nearestCode (2 * n) (2 * d) = nearestCode n d := by
    unfold nearestCode
    simp only [Nat.mul_div_mul_left _ _ Nat.two_pos, Nat.mul_assoc, roundHalfEven_twice]
  simp only [nearest, hcode]

/-- Twice a number is in the next block of codes, at the same place. -/
theorem nearestCode_double {n : Nat} (h : 2 ^ 52 ≤ n) :
    nearestCode (2 * n) 1 = nearestCode n 1 + 2 ^ 52 := by
  have hlog := (Nat.le_log2 (show n ≠ 0 by omega)).mpr h
  have hshift : (2 * n).log2 - 52 = n.log2 - 52 + 1 := by
    rw [Nat.log2_two_mul (by omega)]
    omega
  unfold nearestCode
  simp only [Nat.div_one, Nat.one_mul, Nat.pow_eq, hshift, Nat.pow_succ']
  rw [roundHalfEven_twice, Nat.add_mul, Nat.one_mul]
  exact Nat.add_right_comm _ _ _

theorem magnitude_double (hx : 2 ^ 52 ≤ x.code) (h : y.code = x.code + 2 ^ 52) :
    y.magnitude = 2 * x.magnitude := by
  have hblock : y.code / 2 ^ 52 = x.code / 2 ^ 52 + 1 := by omega
  have hrest : y.code % 2 ^ 52 = x.code % 2 ^ 52 := by omega
  have hne : x.code / 2 ^ 52 ≠ 0 := by omega
  unfold magnitude
  dsimp only
  simp only [Nat.pow_eq]
  rw [hblock, hrest, if_neg hne, if_neg (Nat.succ_ne_zero _), Nat.add_sub_cancel,
    Nat.mul_left_comm, ← Nat.pow_succ', Nat.succ_eq_add_one, Nat.sub_one_add_one hne]

theorem isFinite_ofNat {n : Nat} (h : n < 2 ^ 64) : (ofNat n).isFinite = true := by
  have hle : (ofNat n).rank ≤ (ofNat (2 ^ 64)).rank :=
    rank_le_of_le (ofNat_le_ofNat (Nat.le_of_lt h))
  have hlimit : (ofNat (2 ^ 64)).rank < infinityCode := by decide +kernel
  exact decide_eq_true (Int.ofNat_lt.mp (Int.lt_of_le_of_lt hle hlimit))

theorem magnitude_ofNat_double {n : Nat} (hpos : 0 < n) (h : 2 * n < 2 ^ 64) :
    (ofNat (2 * n)).magnitude = 2 * (ofNat n).magnitude := by
  have hcode {m : Nat} (hm : m < 2 ^ 64) : (ofNat m).code = nearestCode (m * unitsPerOne) 1 := by
    have hfinite : (ofNat m).code < infinityCode := of_decide_eq_true (isFinite_ofNat hm)
    exact Nat.min_eq_left (Nat.le_of_not_lt fun hlt =>
      Nat.lt_irrefl _ (Nat.lt_of_lt_of_eq hfinite (Nat.min_eq_right (Nat.le_of_lt hlt)).symm))
  have hunits : 2 ^ 52 ≤ n * unitsPerOne :=
    Nat.le_trans (by decide +kernel) (Nat.le_mul_of_pos_left unitsPerOne hpos)
  have hlow : 2 ^ 52 ≤ nearestCode (n * unitsPerOne) 1 := by
    have hmono := nearestCode_mono Nat.one_pos Nat.one_pos (Nat.mul_le_mul_right 1 hunits)
    rwa [nearestCode_of_lt (by omega)] at hmono
  have hn := hcode (show n < 2 ^ 64 by omega)
  refine magnitude_double (hn ▸ hlow) ?_
  rw [hcode h, hn, Nat.mul_assoc]
  exact nearestCode_double hunits

/-- **The quotient of two natural numbers that are both doubled.** -/
theorem div_ofNat_double {n c : Nat} (hn : 2 * n < 2 ^ 53) (hpos : 0 < c) (hc : 2 * c < 2 ^ 64) :
    ofNat (2 * n) / ofNat (2 * c) = ofNat n / ofNat c := by
  obtain ⟨hnfinite, hnmagnitude⟩ := magnitude_ofNat (show n < 2 ^ 53 by omega)
  obtain ⟨hdoubled, hdmagnitude⟩ := magnitude_ofNat hn
  rw [div_eq_nearest (isFinite_ofNat hc) (rank_ofNat_pos (by omega)) hdoubled,
    div_eq_nearest (isFinite_ofNat (by omega)) (rank_ofNat_pos hpos) hnfinite, hnmagnitude,
    hdmagnitude, magnitude_ofNat_double hpos hc, Nat.mul_assoc, Nat.mul_assoc,
    Nat.mul_assoc]
  exact nearest_twice false _ _

/-! ## Indices -/

/-- A number above a natural number has an index that is not below it. -/
theorem le_toIndex {n : Nat} (hn : n < 2 ^ 64) (h : (ofNat n).lt x = true) :
    n ≤ Scalar.toIndex x := by
  have hx := (isNaN_of_le (le_of_lt h)).2
  have hrank := rank_lt_of_lt h
  have hone : (0 : Int) < unitsPerOne := Int.natCast_pos.mpr unitsPerOne_pos
  show n ≤ (clipInt 0 (Nat.pow 2 64 - 1) x).toNat
  rcases finite_or_infinity hx with hfinite | rfl | rfl
  · -- If its exact value were below the natural number, rounding would not have put it above.
    have hunits : ((n * unitsPerOne : Nat) : Int) ≤ x.units := by
      refine Int.not_lt.mp fun hbelow => ?_
      have hmono := roundedRank_mono Nat.one_pos (Int.le_of_lt hbelow)
      rw [roundedRank_units hx, ← rank_ofNat] at hmono
      omega
    have hwhole : (n : Int) ≤ x.units.tdiv unitsPerOne := by
      rw [Int.tdiv_eq_ediv_of_nonneg (by omega), Int.le_ediv_iff_mul_le hone, ← Int.natCast_mul]
      exact hunits
    unfold clipInt
    rw [hx, isInfinite_of_isFinite hfinite]
    simp only [Bool.false_eq_true, if_false, Nat.pow_eq]
    grind
  · have hnonneg : 0 ≤ (ofNat n).rank := Int.natCast_nonneg _
    exact absurd (Int.lt_of_le_of_lt hnonneg hrank) (by decide)
  · show n ≤ 2 ^ 64 - 1
    omega

/-- What is not a number has the index zero. -/
theorem toIndex_of_isNaN (hx : x.isNaN = true) : Scalar.toIndex x = 0 := by
  show (clipInt 0 (Nat.pow 2 64 - 1) x).toNat = 0
  rw [clipInt, if_pos hx]
  rfl

/-- A whole number that is not clipped. -/
theorem clipInt_of_units {lo hi k : Int} (hx : x.isFinite = true)
    (hunits : x.units = k * unitsPerOne) (hlo : lo ≤ k) (hhi : k ≤ hi) : clipInt lo hi x = k := by
  unfold clipInt
  rw [isNaN_of_isFinite hx, isInfinite_of_isFinite hx, hunits,
    Int.mul_tdiv_cancel _ (by have := unitsPerOne_pos; omega)]
  simp only [Bool.false_eq_true, if_false]
  rw [if_neg (by omega), if_neg (by omega)]

/-- A number that is at most a natural number has an index that is at most that, where natural
numbers are exact. -/
theorem toIndex_le {n : Nat} (hn : n < 2 ^ 53) (h : x.le (ofNat n) = true) :
    Scalar.toIndex x ≤ n := by
  obtain ⟨hfinite, hmagnitude⟩ := magnitude_ofNat hn
  have hunits : (ofNat n).units = n * unitsPerOne := by
    rw [units_eq_magnitude (Int.natCast_nonneg _), hmagnitude, Int.natCast_mul]
  have hindex : clipInt 0 (Nat.pow 2 64 - 1) (ofNat n) = n :=
    clipInt_of_units hfinite hunits (by omega) (by simp only [Nat.pow_eq]; omega)
  show (clipInt 0 (Nat.pow 2 64 - 1) x).toNat ≤ n
  have hle := clipInt_le_clipInt (show (0 : Int) ≤ Nat.pow 2 64 - 1 by decide) h
  rw [hindex] at hle
  omega

end Seismic.Binary64
