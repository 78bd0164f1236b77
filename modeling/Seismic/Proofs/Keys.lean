import Mathlib.Tactic.Ring
import Seismic.Product
import Seismic.Proofs.Representable

/-!
# Keys — the interval that a time falls into

The key of a time is the whole part of a quotient that has been rounded. Rounding may carry a
quotient over to a whole number, and then the time falls into the wrong interval. It does not where
times are less than `2 ^ 52` seconds away: below a whole multiple of the divisor there is room for a
number only so far away that its quotient is rounded down.

* **`Binary64.nearestCode_le_of_below`**, **`lt_nearestCode_of_above`**: rounding by the midpoint
  between two numbers;
* **`Binary64.below_midpoint`**, **`above_midpoint`**: a number that is not a whole multiple of the
  divisor has its quotient on the proper side of the midpoint;
* **`Bucket.key_eq_ediv`**: the key of a time is its exact quotient, rounded down. The exceptions
  are the negative times of so few units that their quotient is rounded to zero, which
  **`Bucket.key_of_few_units`** is about.
-/

namespace Seismic.Binary64

variable {x t : Binary64} {n d q s a b : Nat}

/-! ## Significands -/

/-- A number is a scaled significand of 53 bits, or one of fewer bits that is not scaled. -/
theorem exists_scaled (x : Binary64) : ∃ q s, q < 2 ^ 53 ∧ (s = 0 ∨ 2 ^ 52 ≤ q) ∧
    x.code = s * 2 ^ 52 + q ∧ x.magnitude = q * 2 ^ s := by
  by_cases hblock : x.code / 2 ^ 52 = 0
  · refine ⟨x.code, 0, by omega, .inl rfl, by omega, ?_⟩
    unfold magnitude
    simp only [Nat.pow_eq, hblock, if_true, Nat.pow_zero, Nat.mul_one]
  · have hlow : 2 ^ 52 ≤ 2 ^ 52 + x.code % 2 ^ 52 := by omega
    have hcode : x.code = (x.code / 2 ^ 52 - 1) * 2 ^ 52 + (2 ^ 52 + x.code % 2 ^ 52) := by omega
    exact ⟨2 ^ 52 + x.code % 2 ^ 52, x.code / 2 ^ 52 - 1, by omega, .inr hlow, hcode,
      magnitude_of_significand hlow (by omega) hcode⟩

/-- The last place of a number below `2 ^ 53` is a part of one. -/
theorem exists_scaled_of_lt (h : x.magnitude < 2 ^ 53 * unitsPerOne) :
    ∃ a b, a < 2 ^ 53 ∧ 2 ^ b ∣ unitsPerOne ∧ x.magnitude = a * 2 ^ b := by
  obtain ⟨q, s, hq, hs, -, hmagnitude⟩ := exists_scaled x
  refine ⟨q, s, hq, ?_, hmagnitude⟩
  rw [← pow_log2_unitsPerOne] at h ⊢
  refine Nat.pow_dvd_pow 2 ?_
  rcases hs with rfl | hlow
  · exact Nat.zero_le _
  · refine Nat.lt_succ_iff.mp ((Nat.pow_lt_pow_iff_right (a := 2) Nat.one_lt_two).mp ?_)
    have hle : 2 ^ 52 * 2 ^ s ≤ q * 2 ^ s := Nat.mul_le_mul_right _ hlow
    rw [Nat.pow_succ]
    omega

/-! ## The midpoint between two numbers -/

section Midpoint

variable (hlow : 2 ^ 52 ≤ q) (hhigh : q < 2 ^ 53)
include hlow hhigh

/-- Between two numbers rounding finds the scale of the lower one. -/
theorem nearestCode_of_between (hle : q * 2 ^ s * d ≤ n) (hlt : n < (q + 1) * 2 ^ s * d) :
    nearestCode n d = s * 2 ^ 52 + roundHalfEven n (d * 2 ^ s) ∧ n / (d * 2 ^ s) = q := by
  have hd : 0 < d := Nat.pos_of_lt_mul_left (Nat.lt_of_le_of_lt (Nat.zero_le n) hlt)
  have hpos : 0 < 2 ^ s := Nat.two_pow_pos s
  have hquotient_le : q * 2 ^ s ≤ n / d := (Nat.le_div_iff_mul_le hd).mpr hle
  have hquotient_lt : n / d < (q + 1) * 2 ^ s := (Nat.div_lt_iff_lt_mul hd).mpr hlt
  have hlog : (n / d).log2 = 52 + s := by
    have hbound : 2 ^ 52 * 2 ^ s ≤ q * 2 ^ s := Nat.mul_le_mul_right _ hlow
    refine (Nat.log2_eq_iff (by omega)).mpr ⟨?_, ?_⟩
    · rw [Nat.pow_add]
      omega
    · rw [show 52 + s + 1 = 53 + s by omega, Nat.pow_add]
      exact Nat.lt_of_lt_of_le hquotient_lt (Nat.mul_le_mul_right _ hhigh)
  constructor
  · unfold nearestCode
    simp only [hlog, Nat.add_sub_cancel_left, Nat.pow_eq]
  · rw [← Nat.div_div_eq_div_mul]
    exact Nat.div_eq_of_lt_le hquotient_le hquotient_lt

/-- The number behind a significand. -/
theorem nearestCode_succ : nearestCode ((q + 1) * 2 ^ s) 1 = s * 2 ^ 52 + q + 1 := by
  by_cases hlt : q + 1 < 2 ^ 53
  · rw [nearestCode_scaled (by omega) hlt, Nat.add_assoc]
  · -- The significand is full, so the next number has the least one of the next scale.
    have heq : q + 1 = 2 ^ 52 * 2 := by omega
    have hnext : (q + 1) * 2 ^ s = 2 ^ 52 * 2 ^ (s + 1) := by
      rw [heq, Nat.mul_assoc, ← Nat.pow_succ']
    rw [hnext, nearestCode_scaled (Nat.le_refl _) (by decide)]
    omega

/-- **What is below the midpoint is not rounded up.** -/
theorem nearestCode_le_of_below (hd : 0 < d) (h : 2 * n < (2 * q + 1) * (d * 2 ^ s)) :
    nearestCode n d ≤ s * 2 ^ 52 + q := by
  -- Between the two numbers the rest of the division decides; below both, monotonicity does.
  by_cases hle : q * 2 ^ s * d ≤ n
  · have hlt : n < (q + 1) * 2 ^ s * d := by
      have hnext : (q + 1) * 2 ^ s * d = q * (d * 2 ^ s) + d * 2 ^ s := by ring
      have hmid : (2 * q + 1) * (d * 2 ^ s) = 2 * (q * (d * 2 ^ s)) + d * 2 ^ s := by ring
      omega
    obtain ⟨hcode, hwhole⟩ := nearestCode_of_between hlow hhigh hle hlt
    have hsplit := Nat.div_add_mod' n (d * 2 ^ s)
    have hcases := roundHalfEven_cases n (d * 2 ^ s)
    have hmid : (2 * q + 1) * (d * 2 ^ s) = 2 * (q * (d * 2 ^ s)) + d * 2 ^ s := by ring
    rw [hwhole] at hsplit hcases
    omega
  · have hmono := nearestCode_mono hd Nat.one_pos
      (show n * 1 ≤ q * 2 ^ s * d by omega)
    rwa [nearestCode_scaled hlow hhigh] at hmono

/-- **What is above the midpoint is rounded up.** -/
theorem lt_nearestCode_of_above (hd : 0 < d) (h : (2 * q + 1) * (d * 2 ^ s) < 2 * n) :
    s * 2 ^ 52 + q < nearestCode n d := by
  -- The same on the other side: between the numbers, or above both.
  by_cases hlt : n < (q + 1) * 2 ^ s * d
  · have hmid : (2 * q + 1) * (d * 2 ^ s) = 2 * (q * (d * 2 ^ s)) + d * 2 ^ s := by ring
    have hle : q * 2 ^ s * d ≤ n := by
      have hcomm : q * 2 ^ s * d = q * (d * 2 ^ s) := by ring
      omega
    obtain ⟨hcode, hwhole⟩ := nearestCode_of_between hlow hhigh hle hlt
    have hsplit := Nat.div_add_mod' n (d * 2 ^ s)
    have hcases := roundHalfEven_cases n (d * 2 ^ s)
    rw [hwhole] at hsplit hcases
    omega
  · have hmono := nearestCode_mono Nat.one_pos hd
      (show (q + 1) * 2 ^ s * d ≤ n * 1 by omega)
    rw [nearestCode_succ hlow hhigh] at hmono
    omega

end Midpoint

/-! ## Room beside a multiple of the divisor

A number and a whole multiple of the divisor that are both multiples of the number's last place are
at least one such place apart. If half of the last place of a quotient were not less than that, the
number would have more than 53 bits. -/

/-- **A number below a multiple is below the midpoint before it.** -/
theorem below_midpoint (hlow : 2 ^ 52 ≤ q) (hd : 0 < d) (ha : a < 2 ^ 53)
    (hdvd : 2 ^ b ∣ (q + 1) * (d * 2 ^ s)) (h : a * 2 ^ b < (q + 1) * (d * 2 ^ s)) :
    2 * (a * 2 ^ b) < (2 * q + 1) * (d * 2 ^ s) := by
  obtain ⟨c, hc⟩ := hdvd
  have hplace : 0 < d * 2 ^ s := Nat.mul_pos hd (Nat.two_pow_pos s)
  generalize d * 2 ^ s = place at *
  have hnext : (a + 1) * 2 ^ b ≤ (q + 1) * place := by
    rw [hc, Nat.mul_comm (2 ^ b)] at h ⊢
    exact Nat.mul_le_mul_right _ (Nat.lt_of_mul_lt_mul_right h)
  -- Otherwise half of the last place of the quotient would be no less than the place of the number,
  -- which then would have more bits than it can have.
  refine Nat.lt_of_not_le fun hle => ?_
  have hroom : 2 * 2 ^ b ≤ place := by
    have hexpand : (a + 1) * 2 ^ b = a * 2 ^ b + 2 ^ b := Nat.succ_mul _ _
    have hmid : (2 * q + 1) * place = 2 * (q * place) + place := by ring
    have hwhole : (q + 1) * place = q * place + place := Nat.succ_mul _ _
    omega
  have hbits : (2 * q + 1) * place ≤ a * place := by
    calc (2 * q + 1) * place ≤ 2 * (a * 2 ^ b) := hle
      _ = a * (2 * 2 ^ b) := Nat.mul_left_comm _ _ _
      _ ≤ a * place := Nat.mul_le_mul_left a hroom
  have hcontra := Nat.le_of_mul_le_mul_right hbits hplace
  omega

/-- **A number above a multiple is above the midpoint behind it.** -/
theorem above_midpoint (hlow : 2 ^ 52 ≤ q) (hd : 0 < d) (ha : a < 2 ^ 53)
    (hdvd : 2 ^ b ∣ q * (d * 2 ^ s)) (h : q * (d * 2 ^ s) < a * 2 ^ b) :
    (2 * q + 1) * (d * 2 ^ s) < 2 * (a * 2 ^ b) := by
  obtain ⟨c, hc⟩ := hdvd
  have hplace : 0 < d * 2 ^ s := Nat.mul_pos hd (Nat.two_pow_pos s)
  generalize d * 2 ^ s = place at *
  have hnext : q * place + 2 ^ b ≤ a * 2 ^ b := by
    rw [hc, Nat.mul_comm (2 ^ b)] at h ⊢
    rw [← Nat.succ_mul]
    exact Nat.mul_le_mul_right _ (Nat.lt_of_mul_lt_mul_right h)
  have hmid : (2 * q + 1) * place = 2 * (q * place) + place := by ring
  refine Nat.lt_of_not_le fun hle => ?_
  have hroom : 2 * 2 ^ b ≤ place := by omega
  have hbits : 2 * q * place < a * place := by
    calc 2 * q * place = 2 * (q * place) := Nat.mul_assoc _ _ _
      _ < 2 * (a * 2 ^ b) := by omega
      _ = a * (2 * 2 ^ b) := Nat.mul_left_comm _ _ _
      _ ≤ a * place := Nat.mul_le_mul_left a hroom
  have hcontra := Nat.lt_of_mul_lt_mul_right hbits
  omega

/-! ## Quotients of half a unit -/

/-- A quotient of more than half a unit is not rounded to zero. -/
theorem nearestCode_pos (hd : 0 < d) (h : d < 2 * n) : 0 < nearestCode n d := by
  by_cases hlt : n < d
  · have hquotient : n / d = 0 := Nat.div_eq_of_lt hlt
    have hcases := roundHalfEven_cases n d
    rw [hquotient, Nat.mod_eq_of_lt hlt] at hcases
    unfold nearestCode
    simp only [hquotient, show Nat.log2 0 - 52 = 0 from rfl, Nat.pow_zero, Nat.pow_eq, Nat.mul_one,
      Nat.zero_mul, Nat.zero_add]
    omega
  · have hmono := nearestCode_mono Nat.one_pos hd (show 1 * d ≤ n * 1 by omega)
    rw [nearestCode_of_lt (by decide)] at hmono
    exact hmono

/-- One of half a unit or less is: a tie goes to the even one. -/
theorem nearestCode_eq_zero (hd : 0 < d) (h : 2 * n ≤ d) : nearestCode n d = 0 := by
  have hmono := nearestCode_mono hd Nat.two_pos (show n * 2 ≤ 1 * d by omega)
  have hhalf : nearestCode 1 2 = 0 := by decide
  omega

/-! ## Quotients by natural numbers -/

/-- A positive natural number as a scaled significand. -/
theorem exists_scaled_ofNat {m : Nat} (hpos : 0 < m) (h : m < 2 ^ 53) : ∃ q s, 2 ^ 52 ≤ q ∧
    q < 2 ^ 53 ∧ (ofNat m).code = (s + 1) * 2 ^ 52 + q ∧ m * unitsPerOne = q * 2 ^ (s + 1) := by
  obtain ⟨q, s, hhigh, hs, hcode, hmagnitude⟩ := exists_scaled (ofNat m)
  rw [(magnitude_ofNat h).2] at hmagnitude
  cases s with
  | zero =>
    have hone : 2 ^ 53 ≤ unitsPerOne := by decide +kernel
    have hunits : unitsPerOne ≤ m * unitsPerOne := Nat.le_mul_of_pos_left _ hpos
    rw [hmagnitude, Nat.pow_zero, Nat.mul_one] at hunits
    exact absurd (Nat.le_trans hone hunits) (Nat.not_le_of_lt hhigh)
  | succ s => exact ⟨q, s, hs.resolve_left (Nat.succ_ne_zero s), hhigh, hcode, hmagnitude⟩

/-- The number before a positive natural number as a scaled significand. -/
theorem exists_scaled_before {m : Nat} (hpos : 0 < m) (h : m < 2 ^ 53) : ∃ q s, 2 ^ 52 ≤ q ∧
    q < 2 ^ 53 ∧ (ofNat m).code = s * 2 ^ 52 + q + 1 ∧ m * unitsPerOne = (q + 1) * 2 ^ s := by
  obtain ⟨q, s, hlow, hhigh, hcode, hunits⟩ := exists_scaled_ofNat hpos h
  rcases Nat.eq_or_lt_of_le hlow with hleast | hlow
  · -- The number before the least one of a scale is the greatest one of the scale before.
    have hfull : 2 ^ 53 - 1 + 1 = 2 ^ 52 * 2 ^ 1 := by decide
    refine ⟨2 ^ 53 - 1, s, by decide, by decide, ?_, ?_⟩
    · rw [hcode, ← hleast, Nat.add_assoc, hfull]
      omega
    · rw [hunits, ← hleast, hfull, Nat.pow_add 2 s 1, Nat.mul_comm (2 ^ s), Nat.mul_assoc]
  · have hsucc : q - 1 + 1 = q := Nat.sub_add_cancel (Nat.le_trans (by decide) hlow)
    refine ⟨q - 1, s + 1, Nat.le_sub_one_of_lt hlow, Nat.lt_of_le_of_lt (Nat.sub_le _ _) hhigh,
      ?_, ?_⟩
    · rw [hcode, Nat.add_assoc, hsucc]
    · rw [hunits, hsucc]

section Divisor

variable {m : Nat} (hd : 0 < d) (hm : m < 2 ^ 53) (hsmall : t.magnitude < 2 ^ 53 * unitsPerOne)
include hd hm hsmall

/-- **What is less than `m` times the divisor has a quotient that is rounded to less than `m`.** -/
theorem nearestCode_lt_of_lt (h : t.magnitude < m * (d * unitsPerOne)) :
    nearestCode t.magnitude d < (ofNat m).code := by
  have hpos : 0 < m := Nat.pos_of_lt_mul_right (Nat.lt_of_le_of_lt (Nat.zero_le _) h)
  obtain ⟨q, s, hlow, hhigh, hcode, hunits⟩ := exists_scaled_before hpos hm
  obtain ⟨a, b, ha, hb, hmagnitude⟩ := exists_scaled_of_lt hsmall
  have hmultiple : m * (d * unitsPerOne) = (q + 1) * (d * 2 ^ s) := by
    rw [Nat.mul_left_comm, hunits, Nat.mul_left_comm]
  have hdvd : 2 ^ b ∣ (q + 1) * (d * 2 ^ s) := by
    rw [← hmultiple]
    exact Dvd.dvd.mul_left (Dvd.dvd.mul_left hb d) m
  rw [hmultiple, hmagnitude] at h
  rw [hmagnitude, hcode]
  exact Nat.lt_succ_of_le
    (nearestCode_le_of_below hlow hhigh hd (below_midpoint hlow hd ha hdvd h))

/-- **What is more than `m` times the divisor has a quotient that is rounded to more than `m`**, but
for a quotient of at most half a unit. -/
theorem lt_nearestCode_of_lt (h : m * (d * unitsPerOne) < t.magnitude)
    (hunit : m = 0 → d < 2 * t.magnitude) : (ofNat m).code < nearestCode t.magnitude d := by
  rcases Nat.eq_zero_or_pos m with rfl | hpos
  · have hzero : (ofNat 0).code = 0 := by decide +kernel
    rw [hzero]
    exact nearestCode_pos hd (hunit rfl)
  · obtain ⟨q, s, hlow, hhigh, hcode, hunits⟩ := exists_scaled_ofNat hpos hm
    obtain ⟨a, b, ha, hb, hmagnitude⟩ := exists_scaled_of_lt hsmall
    have hmultiple : m * (d * unitsPerOne) = q * (d * 2 ^ (s + 1)) := by
      rw [Nat.mul_left_comm, hunits, Nat.mul_left_comm]
    have hdvd : 2 ^ b ∣ q * (d * 2 ^ (s + 1)) := by
      rw [← hmultiple]
      exact Dvd.dvd.mul_left (Dvd.dvd.mul_left hb d) m
    rw [hmultiple, hmagnitude] at h
    rw [hmagnitude, hcode]
    exact lt_nearestCode_of_above hlow hhigh hd (above_midpoint hlow hd ha hdvd h)

end Divisor

/-! ## Whole numbers -/

theorem rank_ofInt_of_pos {k : Int} (h : 0 < k) : (ofInt k).rank = (ofNat k.natAbs).code :=
  if_neg (by simpa [ofInt, nearest] using Int.le_of_lt h)

theorem rank_ofInt_of_nonpos {k : Int} (h : k ≤ 0) :
    (ofInt k).rank = -((ofNat k.natAbs).code : Int) := by
  rcases Int.lt_or_eq_of_le h with hlt | rfl
  · exact if_pos (decide_eq_true hlt)
  · decide +kernel

/-- Whole numbers below `2 ^ 53` are exact, with the sign of a zero as it may be. -/
theorem units_nearest_whole {negative : Bool} {k : Int} (h : k.natAbs < 2 ^ 53)
    (hsign : k ≠ 0 → negative = decide (k < 0)) :
    (nearest negative (k.natAbs * unitsPerOne) 1).isFinite = true ∧
      (nearest negative (k.natAbs * unitsPerOne) 1).units = k * unitsPerOne := by
  obtain ⟨hfinite, hmagnitude⟩ := magnitude_ofNat h
  refine ⟨hfinite, ?_⟩
  have hexact : (nearest negative (k.natAbs * unitsPerOne) 1).magnitude =
      k.natAbs * unitsPerOne := hmagnitude
  unfold units
  rw [hexact, Int.natCast_mul]
  show (if negative = true then _ else _) = _
  by_cases hzero : k = 0
  · subst hzero
    simp only [Int.natAbs_zero, Int.natCast_zero, Int.zero_mul, Int.neg_zero, ite_self]
  · rw [hsign hzero]
    split
    · next hneg =>
      have habs : (k.natAbs : Int) = -k := by
        have := of_decide_eq_true hneg
        omega
      rw [habs, Int.neg_mul, Int.neg_neg]
    · next hneg =>
      have habs : (k.natAbs : Int) = k := by
        have := of_decide_eq_false (Bool.eq_false_iff.mpr hneg)
        omega
      rw [habs]

/-- Integers below `2 ^ 53` are exact. -/
theorem units_ofInt {k : Int} (h : k.natAbs < 2 ^ 53) :
    (ofInt k).isFinite = true ∧ (ofInt k).units = k * unitsPerOne :=
  units_nearest_whole h fun _ => rfl

/-! ## Times divided by natural numbers -/

section Quotient

variable {k : Int} (hd : 0 < d) (hd' : d < 2 ^ 53) (ht : t.isFinite = true)
include hd hd' ht

theorem rank_div_ofNat : (t / ofNat d).rank = roundedRank t.units d := by
  obtain ⟨hfinite, hmagnitude⟩ := magnitude_ofNat hd'
  have hone : 0 < d * unitsPerOne := Nat.mul_pos hd unitsPerOne_pos
  have hcross : t.units * unitsPerOne * d = t.units * ((d * unitsPerOne : Nat) : Int) := by
    rw [Int.natCast_mul, Int.mul_assoc, Int.mul_comm (unitsPerOne : Int)]
  rw [rank_div hfinite (rank_ofNat_pos hd) ht, hmagnitude]
  exact Int.le_antisymm (roundedRank_le hone hd (Int.le_of_eq hcross))
    (roundedRank_le hd hone (Int.le_of_eq hcross.symm))

/-- A quotient that is not below a whole number is not rounded below it. -/
theorem le_units_div (hk : k.natAbs < 2 ^ 53) (h : k * (d * unitsPerOne) ≤ t.units) :
    k * unitsPerOne ≤ (t / ofNat d).units := by
  have hrank : (ofInt k).rank ≤ (t / ofNat d).rank := by
    rw [rank_ofInt, rank_div_ofNat hd hd' ht]
    refine roundedRank_le Nat.one_pos hd ?_
    rw [Int.mul_right_comm, Int.mul_assoc]
    omega
  rw [← (units_ofInt hk).2]
  exact units_mono hrank

theorem isNaN_div_ofNat : (t / ofNat d).isNaN = false := by
  rw [div_eq_nearest (magnitude_ofNat hd').1 (rank_ofNat_pos hd) ht]
  exact isNaN_nearest _ _ _

/-- **A quotient below a whole number is rounded to one below it**, but for one that is rounded to
zero. -/
theorem units_div_lt (hk : k.natAbs < 2 ^ 53) (hsmall : t.magnitude < 2 ^ 53 * unitsPerOne)
    (h : t.units < k * (d * unitsPerOne)) (hunit : k = 0 → d < 2 * t.magnitude) :
    (t / ofNat d).units < k * unitsPerOne := by
  have hplace : (0 : Int) ≤ d * unitsPerOne := Int.mul_nonneg (by omega) (by omega)
  have hproduct : ((k.natAbs * (d * unitsPerOne) : Nat) : Int) = k.natAbs * (d * unitsPerOne) := by
    rw [Int.natCast_mul, Int.natCast_mul]
  have hmagnitude := natAbs_units t
  rw [← (units_ofInt hk).2]
  refine units_lt_units (isNaN_div_ofNat hd hd' ht) (isNaN_nearest _ _ _) ?_
  rw [rank_div_ofNat hd hd' ht]
  unfold roundedRank
  rcases Int.lt_or_le 0 k with hpos | hneg
  · rw [rank_ofInt_of_pos hpos]
    split
    · have hcode : 0 < ((ofNat k.natAbs).code : Int) := rank_ofNat_pos (by omega)
      omega
    · have hlt : t.magnitude < k.natAbs * (d * unitsPerOne) := by
        rw [Int.eq_natAbs_of_nonneg (Int.le_of_lt hpos)] at h
        omega
      have hcode := nearestCode_lt_of_lt hd hk hsmall hlt
      rw [hmagnitude]
      exact Int.ofNat_lt.mpr (Nat.lt_of_le_of_lt (Nat.min_le_left _ _) hcode)
  · have hlt : k.natAbs * (d * unitsPerOne) < t.magnitude := by
      have habs : k = -(k.natAbs : Int) := by omega
      rw [habs, Int.neg_mul] at h
      omega
    have htneg : t.units < 0 := by
      have hle := Int.mul_nonpos_of_nonpos_of_nonneg hneg hplace
      omega
    have hcode := lt_nearestCode_of_lt hd hk hsmall hlt fun hzero => hunit (by omega)
    have hfinite : (ofNat k.natAbs).code < infinityCode := of_decide_eq_true (magnitude_ofNat hk).1
    rw [if_pos htneg, rank_ofInt_of_nonpos hneg, hmagnitude]
    exact Int.neg_lt_neg (Int.ofNat_lt.mpr (Nat.lt_min.mpr ⟨hcode, hfinite⟩))

/-- **The whole part of a quotient is that of the exact one**, but for one that is rounded to
zero. -/
theorem floorInt_div (hsmall : t.magnitude < 2 ^ 52 * unitsPerOne)
    (hunit : t.units < 0 → d < 2 * t.magnitude) :
    (t / ofNat d).floorInt = t.units / (d * unitsPerOne) ∧
      (t.units / (d * unitsPerOne)).natAbs ≤ 2 ^ 52 := by
  have hone : (0 : Int) < unitsPerOne := Int.natCast_pos.mpr unitsPerOne_pos
  have hplace : (0 : Int) < d * unitsPerOne := Int.mul_pos (by omega) hone
  have hmagnitude := natAbs_units t
  have hlow := Int.ediv_mul_le t.units (Int.ne_of_gt hplace)
  have hhigh := Int.lt_ediv_add_one_mul_self t.units hplace
  have hrange : -2 ^ 52 ≤ t.units / (d * unitsPerOne) ∧ t.units / (d * unitsPerOne) < 2 ^ 52 := by
    have hdivisor : 1 * (unitsPerOne : Int) ≤ d * unitsPerOne :=
      Int.mul_le_mul_of_nonneg_right (by omega) (Int.le_of_lt hone)
    have hle := Int.mul_le_mul_of_nonneg_left hdivisor (show (0 : Int) ≤ 2 ^ 52 by decide)
    rw [Int.le_ediv_iff_mul_le hplace, Int.ediv_lt_iff_lt_mul hplace, Int.neg_mul]
    omega
  -- The exact quotient is between two whole numbers, and rounding leaves it between them.
  generalize t.units / (d * unitsPerOne) = k at *
  refine ⟨?_, by omega⟩
  have hle := le_units_div hd hd' ht (k := k) (by omega) hlow
  have hlt := units_div_lt hd hd' ht (k := k + 1) (by omega) (by omega) hhigh fun hzero => ?_
  · unfold floorInt
    rw [Int.fdiv_eq_ediv_of_nonneg _ (Int.le_of_lt hone)]
    have hge := (Int.le_ediv_iff_mul_le hone).mpr hle
    have hbelow := (Int.ediv_lt_iff_lt_mul hone).mpr hlt
    omega
  · refine hunit ?_
    rw [hzero, Int.zero_mul] at hhigh
    exact hhigh

/-- The exceptions are rounded to zero. -/
theorem floorInt_div_of_few_units (h : 2 * t.magnitude ≤ d) : (t / ofNat d).floorInt = 0 := by
  have hcode : (t / ofNat d).rank = 0 := by
    have hzero (negative : Bool) : (nearest negative t.magnitude d).code = 0 := by
      show Nat.min (nearestCode t.magnitude d) infinityCode = 0
      rw [nearestCode_eq_zero hd h]
      exact Nat.zero_min _
    rw [rank_div_ofNat hd hd' ht]
    unfold roundedRank
    rw [natAbs_units, hzero, hzero]
    simp
  have hunits : (t / ofNat d).units = 0 :=
    Int.le_antisymm (units_mono (y := zero false) (Int.le_of_eq hcode))
      (units_mono (x := zero false) (Int.le_of_eq hcode.symm))
  unfold floorInt
  rw [hunits, Int.zero_fdiv]

end Quotient

/-! ## The whole part of a number -/

/-- The number that `floor` gives is read off as the whole part. -/
theorem clipInt_floor {lo hi : Int} (hx : x.isFinite = true) (hsmall : x.floorInt.natAbs < 2 ^ 53)
    (hlo : lo ≤ x.floorInt) (hhi : x.floorInt ≤ hi) : clipInt lo hi x.floor = x.floorInt := by
  have hone : (0 : Int) < unitsPerOne := Int.natCast_pos.mpr unitsPerOne_pos
  have hsign : x.floorInt ≠ 0 → x.negative = decide (x.floorInt < 0) := by
    unfold floorInt
    rw [Int.fdiv_eq_ediv_of_nonneg _ (Int.le_of_lt hone)]
    intro hne
    have hunits : x.units ≠ 0 := fun hzero => hne (by rw [hzero, Int.zero_ediv])
    rw [negative_of_units hunits, decide_eq_decide, Int.ediv_lt_iff_lt_mul hone, Int.zero_mul]
  obtain ⟨hfinite, hunits⟩ := units_nearest_whole hsmall hsign
  have hfloor : x.floor = nearest x.negative (x.floorInt.natAbs * unitsPerOne) 1 := if_pos hx
  rw [hfloor]
  exact clipInt_of_units hfinite hunits hlo hhi

end Seismic.Binary64

namespace Seismic.Bucket

variable {t : Time} {d : Nat}

/-! ## Keys -/

section Key

variable (hd : 0 < d) (hd' : d < 2 ^ 53) (ht : t.isFinite = true)
include hd hd' ht

/-- A key is the whole part of the quotient, as long as that is small. -/
theorem key_eq_floorInt (h : (t / Binary64.ofNat d).floorInt.natAbs ≤ 2 ^ 52) :
    key (Scalar.ofNat d) t = (t / Binary64.ofNat d).floorInt := by
  have hfinite : (t / Binary64.ofNat d).isFinite = true := by
    rcases Binary64.finite_or_infinity (Binary64.isNaN_div_ofNat hd hd' ht) with hx | hx | hx
    · exact hx
    · rw [hx] at h
      exact absurd h (by decide +kernel)
    · rw [hx] at h
      exact absurd h (by decide +kernel)
  unfold key
  rw [Binary64.scalar_ofNat]
  exact Binary64.clipInt_floor hfinite (by omega) (by simp only [Nat.pow_eq]; omega)
    (by simp only [Nat.pow_eq]; omega)

/-- **The key of a time is its exact quotient, rounded down.** -/
theorem key_eq_ediv (hsmall : t.magnitude < 2 ^ 52 * Binary64.unitsPerOne)
    (hunit : t.units < 0 → d < 2 * t.magnitude) :
    key (Scalar.ofNat d) t = t.units / (d * Binary64.unitsPerOne) := by
  obtain ⟨hwhole, hrange⟩ := Binary64.floorInt_div hd hd' ht hsmall hunit
  rw [key_eq_floorInt hd hd' ht (hwhole ▸ hrange), hwhole]

/-- A time of so few units that its quotient is rounded to zero has the key zero. -/
theorem key_of_few_units (h : 2 * t.magnitude ≤ d) : key (Scalar.ofNat d) t = 0 := by
  have hwhole := Binary64.floorInt_div_of_few_units hd hd' ht h
  rw [key_eq_floorInt hd hd' ht (by rw [hwhole]; decide), hwhole]

end Key

end Seismic.Bucket
