import Mathlib.Algebra.Order.Field.Basic
import Mathlib.Algebra.Order.Field.Rat
import Mathlib.Tactic.FieldSimp
import Mathlib.Tactic.Linarith
import Mathlib.Tactic.NormNum
import Mathlib.Tactic.Ring
import Seismic.Proofs.Rounding
import Seismic.Proofs.Written

/-!
# Millionths — the decimals of a reply against exact values

A number of a reply is written with six places, and then what is superfluous is taken off the text.
What remains is the one canonical decimal of the number rounded to millionths.

* **`Numeral.digits_ofDigitChars`**: digits without a superfluous zero in front are the digits of
  their value;
* **`Binary64.nearestEven_micros`**: the number of millionths is the whole number nearest to the
  exact value, and **`NearestEven.le`** says that this alone makes it monotone;
* **`Decimal.Parts.canonical_ofMicros`**, **`eq_ofMicros`**: a number of millionths is written as a
  canonical decimal, and it has no other one;
* **`Decimal.Parts.value?_text`**: the reader of decimals gives back the number of millionths.
-/

namespace Seismic

/-! ## Digits and their value -/

namespace Numeral

theorem ofDigitChars_cons_zero (c : Char) (rest : List Char) :
    Nat.ofDigitChars 10 (c :: rest) 0 =
      10 ^ rest.length * (c.toNat - '0'.toNat) + Nat.ofDigitChars 10 rest 0 := by
  rw [Nat.ofDigitChars_cons, Nat.mul_zero, Nat.zero_add, Nat.ofDigitChars_eq_ofDigitChars_zero]

theorem ofDigitChars_lt {text : List Char} (h : ∀ c ∈ text, c.isDigit = true) :
    Nat.ofDigitChars 10 text 0 < 10 ^ text.length := by
  induction text with
  | nil => exact Nat.one_pos
  | cons c rest ih =>
    obtain ⟨hc, hrest⟩ := List.forall_mem_cons.mp h
    have hdigit : c.toNat - '0'.toNat ≤ 9 := by
      have hle := (Char.isDigit_iff_toNat.mp hc).2
      have hnine : '9'.toNat = '0'.toNat + 9 := rfl
      omega
    have hlead := Nat.mul_le_mul_left (10 ^ rest.length) hdigit
    have hlow := ih hrest
    rw [ofDigitChars_cons_zero, List.length_cons, Nat.pow_succ]
    omega

/-- Of as many digits a number is spelled in one way only. -/
theorem eq_of_ofDigitChars_eq {text other : List Char} (h : ∀ c ∈ text, c.isDigit = true)
    (hother : ∀ c ∈ other, c.isDigit = true) (hlength : text.length = other.length)
    (hvalue : Nat.ofDigitChars 10 text 0 = Nat.ofDigitChars 10 other 0) : text = other := by
  induction text generalizing other with
  | nil => exact (List.length_eq_zero_iff.mp hlength.symm).symm
  | cons c rest ih =>
    obtain ⟨c', rest', rfl⟩ := List.exists_cons_of_length_pos (l := other) (by
      rw [← hlength]
      exact Nat.succ_pos _)
    obtain ⟨hc, hrest⟩ := List.forall_mem_cons.mp h
    obtain ⟨hc', hrest'⟩ := List.forall_mem_cons.mp hother
    have hsame : rest.length = rest'.length := Nat.succ.inj hlength
    have hlow := ofDigitChars_lt hrest
    have hlow' := ofDigitChars_lt hrest'
    rw [ofDigitChars_cons_zero, ofDigitChars_cons_zero, ← hsame] at hvalue
    rw [← hsame] at hlow'
    -- The first digit is the quotient by a power of ten and the rest is the remainder.
    have hlead := congrArg (· / 10 ^ rest.length) hvalue
    have hmod := congrArg (· % 10 ^ rest.length) hvalue
    simp only [Nat.mul_add_mod, Nat.mod_eq_of_lt hlow, Nat.mod_eq_of_lt hlow'] at hmod
    rw [hmod] at hvalue
    have hdigit : c.toNat - '0'.toNat = c'.toNat - '0'.toNat :=
      Nat.eq_of_mul_eq_mul_left (Nat.pow_pos (by decide)) (Nat.add_right_cancel hvalue)
    have hle := (Char.isDigit_iff_toNat.mp hc).1
    have hle' := (Char.isDigit_iff_toNat.mp hc').1
    rw [Char.toNat_inj.mp (show c.toNat = c'.toNat by omega), ih hrest hrest' hsame hmod]

theorem length_digits_le_iff {n k : Nat} (hk : 0 < k) : (digits n).length ≤ k ↔ n < 10 ^ k :=
  Nat.length_toDigits_le_iff (by decide) hk

/-- **Digits are those of their value** if no zero stands in front of others. -/
theorem digits_ofDigitChars {text : List Char} (h : ∀ c ∈ text, c.isDigit = true)
    (hne : text ≠ []) (hlead : text.head? = some '0' → text = ['0']) :
    digits (Nat.ofDigitChars 10 text 0) = text := by
  obtain ⟨c, rest, rfl⟩ := List.exists_cons_of_ne_nil hne
  -- The value has as many digits as the text, and then it has only these.
  refine eq_of_ofDigitChars_eq (fun c hc => isDigit_of_mem_digits hc) h (Nat.le_antisymm ?_ ?_)
    Nat.ofDigitChars_ten_toDigits
  · exact (length_digits_le_iff (Nat.succ_pos _)).mpr (ofDigitChars_lt h)
  · cases hrest : rest with
    | nil => exact Nat.length_toDigits_pos
    | cons c' rest' =>
      rw [← hrest]
      have hnonzero : c ≠ '0' := by
        rintro rfl
        rw [hrest] at hlead
        cases hlead rfl
      have hpos : 1 ≤ c.toNat - '0'.toNat := by
        have hle := (Char.isDigit_iff_toNat.mp (h c List.mem_cons_self)).1
        have hdiffer := mt Char.toNat_inj.mp hnonzero
        omega
      have hlarge : 10 ^ rest.length ≤ Nat.ofDigitChars 10 (c :: rest) 0 := by
        rw [ofDigitChars_cons_zero]
        have hmul := Nat.mul_le_mul_left (10 ^ rest.length) hpos
        omega
      have hlength : 0 < rest.length := by
        rw [hrest]
        exact Nat.succ_pos _
      have hlonger := mt (length_digits_le_iff hlength).mp (Nat.not_lt.mpr hlarge)
      rw [List.length_cons]
      omega

/-- A number is not written with a superfluous zero in front. -/
theorem digits_of_head? {n : Nat} (h : (digits n).head? = some '0') : digits n = ['0'] := by
  obtain ⟨rest, hrest⟩ := List.head?_eq_some_iff.mp h
  -- What follows the zero spells the same number, with one digit less than it has.
  cases hnil : rest with
  | nil => rw [hrest, hnil]
  | cons c more =>
    have hpos : 0 < rest.length := by
      rw [hnil]
      exact Nat.succ_pos _
    have hdigits : ∀ c ∈ rest, c.isDigit = true := by
      intro c hc
      exact isDigit_of_mem_digits (hrest ▸ List.mem_cons_of_mem _ hc)
    have hvalue : n = Nat.ofDigitChars 10 rest 0 := by
      have htext : Nat.ofDigitChars 10 (digits n) 0 = n := Nat.ofDigitChars_ten_toDigits
      rw [hrest, ofDigitChars_cons_zero, Nat.sub_self, Nat.mul_zero, Nat.zero_add] at htext
      exact htext.symm
    have hshort : (digits n).length ≤ rest.length := by
      rw [length_digits_le_iff hpos, hvalue]
      exact ofDigitChars_lt hdigits
    rw [hrest, List.length_cons] at hshort
    omega

end Numeral

/-! ## The nearest whole number -/

/-- A whole number is nearest to `q`, and the even one of two that are. -/
structure NearestEven (q : ℚ) (m : ℤ) : Prop where
  near : |q - m| ≤ 1 / 2
  even : |q - m| = 1 / 2 → Even m

namespace NearestEven

variable {q q' : ℚ} {m m' : ℤ}

/-- **Rounding is monotone**, so that nothing has two roundings. -/
theorem le (h : NearestEven q m) (h' : NearestEven q' m') (hle : q ≤ q') : m ≤ m' := by
  by_contra hlt
  have hcast : (m' : ℚ) + 1 ≤ m := by exact_mod_cast Int.not_le.mp hlt
  have hnear := abs_le.mp h.near
  have hnear' := abs_le.mp h'.near
  -- Between `m' + 1 / 2` and `m - 1 / 2` there is room for one point, halfway between neighbours.
  have htie : q - m = -(1 / 2) := by linarith
  have htie' : q' - m' = 1 / 2 := by linarith
  have hnext : m = m' + 1 := by
    have hq : (m : ℚ) = m' + 1 := by linarith
    exact_mod_cast hq
  have heven := h.even (by rw [htie, abs_neg]; norm_num)
  have heven' := h'.even (by rw [htie']; norm_num)
  rw [Int.even_iff] at heven heven'
  omega

theorem unique (h : NearestEven q m) (h' : NearestEven q m') : m = m' :=
  Int.le_antisymm (h.le h' (le_refl q)) (h'.le h (le_refl q))

theorem neg (h : NearestEven q m) : NearestEven (-q) (-m) := by
  have hdistance : |-q - ((-m : ℤ) : ℚ)| = |q - m| := by
    rw [Int.cast_neg, ← abs_neg]
    congr 1
    ring
  constructor
  · rw [hdistance]
    exact h.near
  · rw [hdistance, even_neg]
    exact h.even

end NearestEven

namespace Binary64

/-- What is nearest to a quotient is told without dividing. -/
theorem nearestEven_div {n m : ℤ} {d : ℕ} (hd : 0 < d) (hnear : 2 * |n - m * d| ≤ d)
    (heven : 2 * |n - m * d| = d → Even m) : NearestEven ((n : ℚ) / d) m := by
  have hdpos : (0 : ℚ) < d := by exact_mod_cast hd
  have hdistance : |(n : ℚ) / d - m| = ((|n - m * d| : ℤ) : ℚ) / d := by
    rw [Int.cast_abs, ← abs_of_pos hdpos, ← abs_div, abs_of_pos hdpos]
    congr 1
    push_cast
    field_simp
  constructor
  · have hcast : 2 * ((|n - m * d| : ℤ) : ℚ) ≤ d := by exact_mod_cast hnear
    rw [hdistance, div_le_iff₀ hdpos]
    linarith
  · intro htie
    rw [hdistance, div_eq_iff (ne_of_gt hdpos)] at htie
    have hcast : 2 * ((|n - m * d| : ℤ) : ℚ) = d := by linarith
    exact heven (by exact_mod_cast hcast)

/-- **Rounding a quotient** gives the nearest whole number. -/
theorem nearestEven_roundHalfEven (n : ℕ) {d : ℕ} (hd : 0 < d) :
    NearestEven ((n : ℚ) / d) (roundHalfEven n d : ℕ) := by
  have hmod := Nat.mod_lt n hd
  have hdown : (n : ℤ) - (n / d : ℕ) * d = (n % d : ℕ) := by
    rw [sub_eq_iff_eq_add', ← Nat.cast_mul, ← Nat.cast_add, Nat.div_add_mod']
  have hup : (n : ℤ) - ((n / d : ℕ) + 1) * d = (n % d : ℕ) - d := by
    rw [← hdown]
    ring
  -- Up or down, the distance is what is left of the quotient or what is missing to the next one.
  have habs : |((n % d : ℕ) : ℤ) - d| = d - (n % d : ℕ) := by
    rw [abs_sub_comm, abs_of_nonneg (by omega)]
  refine nearestEven_div (n := n) hd ?_ fun htie => ?_
  · rcases roundHalfEven_cases n d with ⟨hround, hrest⟩ | ⟨hround, hrest⟩ | ⟨hround, hrest⟩
    · rw [hround, hdown, Nat.abs_cast]
      omega
    · rw [hround, Nat.cast_succ, hup, habs]
      omega
    · rcases Nat.mod_two_eq_zero_or_one (n / d) with heven | hodd
      · rw [hround, heven, Nat.add_zero, hdown, Nat.abs_cast]
        omega
      · rw [hround, hodd, Nat.cast_succ, hup, habs]
        omega
  · rw [Int.even_coe_nat, Nat.even_iff]
    rcases roundHalfEven_cases n d with ⟨hround, hrest⟩ | ⟨hround, hrest⟩ | ⟨hround, hrest⟩
    · rw [hround, hdown, Nat.abs_cast] at htie
      omega
    · rw [hround, Nat.cast_succ, hup, habs] at htie
      omega
    · omega

theorem toRat_eq (x : Binary64) :
    x.toRat = if x.negative then -((x.magnitude : ℚ) / unitsPerOne)
      else (x.magnitude : ℚ) / unitsPerOne := by
  unfold toRat units
  rw [Rat.mkRat_eq_div]
  split
  · push_cast
    ring
  · push_cast
    ring

/-- **The number of millionths is nearest to the exact value.** -/
theorem nearestEven_micros (x : Binary64) : NearestEven (x.toRat * 10 ^ 6) x.micros := by
  have hround := nearestEven_roundHalfEven (x.magnitude * 1000000) unitsPerOne_pos
  have hscale : ((x.magnitude * 1000000 : ℕ) : ℚ) / unitsPerOne =
      (x.magnitude : ℚ) / unitsPerOne * 10 ^ 6 := by
    push_cast
    ring
  rw [hscale] at hround
  rw [toRat_eq]
  unfold micros
  cases x.negative with
  | false => exact hround
  | true =>
    simp only [if_true]
    rw [neg_mul]
    exact hround.neg

end Binary64

/-! ## Canonical decimals -/

namespace Decimal

/-- The number that a decimal denotes. -/
def toRat (d : Decimal) : ℚ :=
  if d.negative then -(d.digits * 10 ^ d.exponent) else d.digits * 10 ^ d.exponent

/-- The exact value of a numeral. -/
def value? (text : String) : Option ℚ := (read? text.toList).map toRat

/-- The parts of a decimal without an exponent. -/
structure Parts where
  negative : Bool
  whole : List Char
  places : List Char

namespace Parts

open Binary64 (signText sixDigits placesText pointed millionthsText microsText)

/-- The parts one after another, with a point only if there are places. -/
def text (d : Parts) : List Char := signText d.negative ++ d.whole ++ pointed d.places

/-- The parts of a decimal with at most six places and nothing superfluous. -/
structure Canonical (d : Parts) : Prop where
  whole : ∀ c ∈ d.whole, c.isDigit = true
  notEmpty : d.whole ≠ []
  /-- A zero stands in front only if it is the whole part. -/
  leading : d.whole.head? = some '0' → d.whole = ['0']
  places : ∀ c ∈ d.places, c.isDigit = true
  atMostSix : d.places.length ≤ 6
  trailing : d.places.getLast? ≠ some '0'
  noNegativeZero : d.negative = true → d.whole = ['0'] → d.places ≠ []

/-- The absolute value in millionths. -/
def millionths (d : Parts) : ℕ :=
  Nat.ofDigitChars 10 (d.whole ++ d.places) 0 * 10 ^ (6 - d.places.length)

/-- The value in millionths. -/
def micros (d : Parts) : ℤ := if d.negative then -(d.millionths : ℤ) else d.millionths

variable {d : Parts}

theorem splitSign_text (h : d.Canonical) : Numeral.splitSign d.text =
    (d.negative, d.whole ++ pointed d.places) := by
  unfold text signText
  cases d.negative with
  | true => rfl
  | false =>
    obtain ⟨c, rest, hwhole⟩ := List.exists_cons_of_ne_nil h.notEmpty
    have hc : c.isDigit = true := h.whole c (hwhole ▸ List.mem_cons_self)
    rw [hwhole]
    exact Numeral.splitSign_of_isDigit hc _

theorem fractionPart_places (h : d.Canonical) :
    fractionPart (pointed d.places) = (d.places, []) := by
  unfold pointed
  split
  · next hnil =>
    rw [hnil]
    rfl
  · show (d.places.takeWhile Char.isDigit, d.places.dropWhile Char.isDigit) = (d.places, [])
    rw [List.takeWhile_eq_self_iff.mpr h.places, List.dropWhile_eq_nil_iff.mpr h.places]

/-- A canonical decimal is read as its digits. -/
theorem read?_text (h : d.Canonical) : read? d.text =
    some ⟨d.negative, Nat.ofDigitChars 10 (d.whole ++ d.places) 0, 0 - d.places.length⟩ := by
  have htake : (d.whole ++ pointed d.places).takeWhile Char.isDigit = d.whole := by
    rw [List.takeWhile_append_of_pos h.whole, pointed]
    split <;> exact List.append_nil _
  have hdrop : (d.whole ++ pointed d.places).dropWhile Char.isDigit = pointed d.places := by
    rw [List.dropWhile_append_of_pos h.whole, pointed]
    split <;> rfl
  have hempty : d.whole.isEmpty = false := List.isEmpty_eq_false_iff.mpr h.notEmpty
  unfold read?
  rw [splitSign_text h]
  simp only [htake, hdrop, fractionPart_places h, hempty, Bool.false_and, Bool.false_eq_true,
    if_false]
  rfl

/-- **What a canonical decimal is worth**: its number of millionths. -/
theorem value?_text (h : d.Canonical) :
    value? (String.ofList d.text) = some ((d.micros : ℚ) / 10 ^ 6) := by
  -- Six places are those that are written and those that the number of millionths adds.
  have hpow : (10 : ℚ) ^ 6 = 10 ^ d.places.length * 10 ^ (6 - d.places.length) := by
    rw [← pow_add, Nat.add_sub_cancel' h.atMostSix]
  have hvalue : (Nat.ofDigitChars 10 (d.whole ++ d.places) 0 : ℚ) *
      10 ^ (0 - (d.places.length : ℤ)) = (d.millionths : ℚ) / 10 ^ 6 := by
    unfold millionths
    rw [hpow, zero_sub, zpow_neg, zpow_natCast]
    push_cast
    field_simp
  unfold value? toRat micros
  rw [String.toList_ofList, read?_text h, Option.map_some]
  dsimp only
  rw [hvalue]
  cases d.negative with
  | false => simp
  | true => simp [neg_div]

/-- The parts that a number of millionths is written in. -/
def ofMicros (m : ℤ) : Parts where
  negative := m < 0
  whole := Numeral.digits (m.natAbs / 1000000)
  places := placesText (m.natAbs % 1000000)

/-- **A number of millionths is written in these parts.** -/
theorem text_ofMicros (m : ℤ) : String.ofList (ofMicros m).text = microsText m := by
  unfold text microsText ofMicros signText millionthsText
  by_cases hneg : m < 0
  · simp [hneg]
  · simp [hneg]

theorem length_sixDigits {n : ℕ} (h : n < 1000000) : (sixDigits n).length = 6 := by
  have hle : (Numeral.digits n).length ≤ 6 := (Numeral.length_digits_le_iff (by decide)).mpr h
  unfold sixDigits
  rw [List.length_append, List.length_replicate, Nat.sub_add_cancel hle]

/-- The places and zeros up to the sixth are all six digits. -/
theorem sixDigits_eq {n : ℕ} (h : n < 1000000) : (placesText n).length ≤ 6 ∧
    sixDigits n = placesText n ++
      List.replicate (6 - (placesText n).length) '0' := by
  obtain ⟨k, hk⟩ := Binary64.exists_eq_placesText_append n
  have hlength := congrArg List.length hk
  rw [length_sixDigits h, List.length_append, List.length_replicate] at hlength
  have hrest : 6 - (placesText n).length = k := by omega
  rw [hrest]
  exact ⟨by omega, hk⟩

theorem canonical_ofMicros (m : ℤ) : (ofMicros m).Canonical where
  whole := fun c hc => Numeral.isDigit_of_mem_digits hc
  notEmpty := Numeral.digits_ne_nil
  leading := Numeral.digits_of_head?
  places := fun c hc => Binary64.isDigit_of_mem_placesText hc
  atMostSix := (sixDigits_eq (Nat.mod_lt _ (by decide))).1
  trailing := Binary64.getLast?_trimEnd_ne '0' _
  noNegativeZero := by
    intro hneg hwhole
    have hlt : m < 0 := of_decide_eq_true hneg
    have hquotient : m.natAbs / 1000000 = 0 := Binary64.digits_eq_zero_iff.mp hwhole
    exact mt Binary64.placesText_eq_nil_iff.mp (by omega)

/-- Zeros behind the places make the digits those of the number of millionths. -/
theorem millionths_eq (d : Parts) : d.millionths = Nat.ofDigitChars 10
    (d.whole ++ (d.places ++ List.replicate (6 - d.places.length) '0')) 0 := by
  unfold millionths
  rw [← List.append_assoc, Nat.ofDigitChars_append _ (m := List.replicate _ '0'),
    Nat.ofDigitChars_replicate_zero, Nat.mul_comm]

theorem millionths_ofMicros (m : ℤ) : (ofMicros m).millionths = m.natAbs := by
  have hmod : m.natAbs % 1000000 < 1000000 := Nat.mod_lt _ (by decide)
  have hsix : (ofMicros m).places ++ List.replicate (6 - (ofMicros m).places.length) '0' =
      sixDigits (m.natAbs % 1000000) := (sixDigits_eq hmod).2.symm
  have hwhole : Nat.ofDigitChars 10 (ofMicros m).whole 0 = m.natAbs / 1000000 :=
    Nat.ofDigitChars_ten_toDigits
  rw [millionths_eq, hsix, Nat.ofDigitChars_append, Nat.ofDigitChars_eq_ofDigitChars_zero,
    length_sixDigits hmod, Binary64.ofDigitChars_sixDigits, hwhole]
  omega

theorem micros_ofMicros (m : ℤ) : (ofMicros m).micros = m := by
  unfold micros
  rw [millionths_ofMicros]
  show (if decide (m < 0) = true then _ else _) = m
  by_cases hneg : m < 0
  · rw [if_pos (decide_eq_true hneg)]
    omega
  · rw [if_neg (by simpa using hneg)]
    omega

/-- The places of a canonical decimal with zeros up to the sixth are six digits. -/
theorem padded (h : d.Canonical) :
    (d.places ++ List.replicate (6 - d.places.length) '0').length = 6 ∧
      ∀ c ∈ d.places ++ List.replicate (6 - d.places.length) '0', c.isDigit = true := by
  constructor
  · rw [List.length_append, List.length_replicate, Nat.add_sub_cancel' h.atMostSix]
  · intro c hc
    rcases List.mem_append.mp hc with hplace | hzero
    · exact h.places c hplace
    · rw [List.eq_of_mem_replicate hzero]
      decide

/-- The parts of a canonical decimal are those of its number of millionths. -/
theorem parts_of_millionths (h : d.Canonical) : Numeral.digits (d.millionths / 1000000) = d.whole ∧
    placesText (d.millionths % 1000000) = d.places := by
  obtain ⟨hlength, hdigits⟩ := padded h
  -- The whole part is the quotient by a million, and the padded places are the remainder.
  have hlow := Numeral.ofDigitChars_lt hdigits
  rw [hlength] at hlow
  have hmillionths : d.millionths = 1000000 * Nat.ofDigitChars 10 d.whole 0 +
      Nat.ofDigitChars 10 (d.places ++ List.replicate (6 - d.places.length) '0') 0 := by
    rw [millionths_eq, Nat.ofDigitChars_append, Nat.ofDigitChars_eq_ofDigitChars_zero, hlength]
  have hquotient : d.millionths / 1000000 = Nat.ofDigitChars 10 d.whole 0 := by omega
  have hrest : d.millionths % 1000000 =
      Nat.ofDigitChars 10 (d.places ++ List.replicate (6 - d.places.length) '0') 0 := by omega
  constructor
  · rw [hquotient]
    exact Numeral.digits_ofDigitChars h.whole h.notEmpty h.leading
  · have hsix : sixDigits (d.millionths % 1000000) =
        d.places ++ List.replicate (6 - d.places.length) '0' := by
      refine Numeral.eq_of_ofDigitChars_eq (fun c hc => Binary64.isDigit_of_mem_sixDigits hc)
        hdigits ?_ ?_
      · rw [length_sixDigits (Nat.mod_lt _ (by decide)), hlength]
      · rw [Binary64.ofDigitChars_sixDigits, hrest]
    rw [placesText, hsix, Binary64.trimEnd_append_replicate,
      Binary64.trimEnd_of_getLast? h.trailing]

/-- **There is no other canonical decimal** of a number of millionths. -/
theorem eq_ofMicros (h : d.Canonical) : d = ofMicros d.micros := by
  obtain ⟨hwhole, hplaces⟩ := parts_of_millionths h
  have habs : d.micros.natAbs = d.millionths := by
    unfold micros
    split <;> omega
  have hsign : decide (d.micros < 0) = d.negative := by
    unfold micros
    cases hnegative : d.negative with
    | false =>
      rw [decide_eq_false_iff_not]
      simp
    | true =>
      have hne : d.millionths ≠ 0 := by
        intro hzero
        rw [hzero] at hwhole hplaces
        exact h.noNegativeZero hnegative hwhole.symm hplaces.symm
      rw [decide_eq_true_eq, if_pos rfl]
      omega
  unfold ofMicros
  rw [habs, hsign, hwhole, hplaces]

end Parts

end Decimal

/-! ## Written numbers -/

namespace Binary64

variable {x : Binary64}

/-- A written number has the value of the number rounded to millionths. -/
theorem value?_fixed (h : x.isFinite = true) :
    Decimal.value? x.fixed = some ((x.micros : ℚ) / 10 ^ 6) := by
  rw [fixed_of_isFinite h, ← Decimal.Parts.text_ofMicros,
    Decimal.Parts.value?_text (Decimal.Parts.canonical_ofMicros x.micros),
    Decimal.Parts.micros_ofMicros]

theorem fixed_ne_minusZero (h : x.isFinite = true) : x.fixed ≠ "-0" := by
  rw [fixed_of_isFinite h, micros, microsText_eq]
  split
  · decide
  · next hne =>
    intro heq
    rw [← String.ofList_toList (s := "-0")] at heq
    exact hne (String.ofList_injective heq)

/-- A millionth is `10 ^ 6` times as far from the next as a whole number, and so is the error. -/
theorem abs_micros_sub_le (x : Binary64) : |(x.micros : ℚ) / 10 ^ 6 - x.toRat| ≤ 5 / 10 ^ 7 := by
  have hnear := abs_le.mp (nearestEven_micros x).near
  rw [abs_le]
  constructor <;> linarith

/-- Two canonical decimals with the same value are the same. -/
theorem eq_of_value? {d d' : Decimal.Parts} (h : d.Canonical) (h' : d'.Canonical)
    (heq : Decimal.value? (String.ofList d.text) = Decimal.value? (String.ofList d'.text)) :
    d = d' := by
  rw [Decimal.Parts.value?_text h, Decimal.Parts.value?_text h', Option.some.injEq,
    div_left_inj' (by norm_num), Int.cast_inj] at heq
  rw [Decimal.Parts.eq_ofMicros h, heq, ← Decimal.Parts.eq_ofMicros h']

/-- **A written number is the canonical decimal of the number rounded to millionths.** -/
theorem fixed_is_canonical :
    (∀ x : Binary64, x.isFinite = true → ∃ (m : ℤ) (d : Decimal.Parts),
      NearestEven (x.toRat * 10 ^ 6) m ∧ |(m : ℚ) / 10 ^ 6 - x.toRat| ≤ 5 / 10 ^ 7 ∧
        Decimal.value? x.fixed = some ((m : ℚ) / 10 ^ 6) ∧
        x.fixed = String.ofList d.text ∧ d.Canonical ∧ x.fixed ≠ "-0" ∧
        ∀ d' : Decimal.Parts, d'.Canonical →
          Decimal.value? (String.ofList d'.text) = some ((m : ℚ) / 10 ^ 6) → d' = d) ∧
    (∀ (x y : Binary64) (m n : ℤ), x.isFinite = true → y.isFinite = true →
      NearestEven (x.toRat * 10 ^ 6) m → NearestEven (y.toRat * 10 ^ 6) n →
        (x.fixed = y.fixed ↔ m = n)) ∧
    (∀ x y : Binary64, x.isFinite = true → y.isFinite = true → x.toRat ≤ y.toRat →
      ∃ p q, Decimal.value? x.fixed = some p ∧ Decimal.value? y.fixed = some q ∧ p ≤ q) := by
  refine ⟨?_, ?_, ?_⟩
  · intro x hx
    have hcanonical := Decimal.Parts.canonical_ofMicros x.micros
    have htext : x.fixed = String.ofList (Decimal.Parts.ofMicros x.micros).text := by
      rw [fixed_of_isFinite hx, Decimal.Parts.text_ofMicros]
    refine ⟨x.micros, Decimal.Parts.ofMicros x.micros, nearestEven_micros x, abs_micros_sub_le x,
      value?_fixed hx, htext, hcanonical, fixed_ne_minusZero hx, fun d' hd' hvalue => ?_⟩
    refine eq_of_value? hd' hcanonical ?_
    rw [hvalue, ← htext, value?_fixed hx]
  · intro x y m n hx hy hm hn
    obtain rfl := hm.unique (nearestEven_micros x)
    obtain rfl := hn.unique (nearestEven_micros y)
    constructor
    · intro hsame
      have hvalue := value?_fixed hx
      rw [hsame, value?_fixed hy, Option.some.injEq, div_left_inj' (by norm_num),
        Int.cast_inj] at hvalue
      exact hvalue.symm
    · intro hsame
      rw [fixed_of_isFinite hx, fixed_of_isFinite hy, hsame]
  · intro x y hx hy hle
    refine ⟨_, _, value?_fixed hx, value?_fixed hy, ?_⟩
    have hscaled : x.toRat * 10 ^ 6 ≤ y.toRat * 10 ^ 6 := by linarith
    have hmicros := (nearestEven_micros x).le (nearestEven_micros y) hscaled
    have hcast : (x.micros : ℚ) ≤ y.micros := by exact_mod_cast hmicros
    linarith

/-- A number between minus half a millionth and zero. -/
def tinyNegative : Binary64 := Decimal.toBinary64 ⟨true, 1, -7⟩

/-- A number within half a millionth of one. -/
def belowOne : Binary64 := Decimal.toBinary64 ⟨false, 9999999, -7⟩

/-- One number loses its sign and another one carries into its whole part. -/
theorem fixed_is_canonical_belowOne :
    (∃ (m : ℤ) (d : Decimal.Parts), NearestEven (belowOne.toRat * 10 ^ 6) m ∧
      belowOne.fixed = String.ofList d.text ∧ d.Canonical) ∧
    (∃ p q, Decimal.value? tinyNegative.fixed = some p ∧ Decimal.value? belowOne.fixed = some q ∧
      p ≤ q) ∧
    (tinyNegative.fixed = belowOne.fixed ↔ (0 : ℤ) = 1) ∧
    tinyNegative.fixed = "0" ∧ belowOne.fixed = "1" := by
  have htiny : tinyNegative.isFinite = true := by decide +kernel
  have hone : belowOne.isFinite = true := by decide +kernel
  have hle : tinyNegative.toRat ≤ belowOne.toRat := by decide +kernel
  have hzero : tinyNegative.micros = 0 := by decide +kernel
  have hmillion : belowOne.micros = 1000000 := by decide +kernel
  obtain ⟨m, d, hnear, -, -, htext, hcanonical, -⟩ := fixed_is_canonical.1 belowOne hone
  have hdiffer := fixed_is_canonical.2.1 _ _ _ _ htiny hone (nearestEven_micros tinyNegative)
    (nearestEven_micros belowOne)
  rw [hzero, hmillion] at hdiffer
  refine ⟨⟨m, d, hnear, htext, hcanonical⟩, fixed_is_canonical.2.2 _ _ htiny hone hle, ?_, ?_, ?_⟩
  · rw [hdiffer]
    decide
  · decide +kernel
  · decide +kernel

end Binary64

end Seismic
