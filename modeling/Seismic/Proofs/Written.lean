import Mathlib.Data.List.DropRight
import Mathlib.Data.List.Infix
import Seismic.Time

/-!
# Written — the characters of written numbers

Everything that separates one number from the next in a reply (a space, a colon, a comma, the end of
a line) has to be a character that no number is written with.

* **`Numeral.inNumbers`** tells the characters that numbers are written with, and the lemmas
  `inNumbers_of_mem_…` say so of each way to write one;
* **`Numeral.int?_ofInt`**: a written whole number is read back;
* **`Binary64.fixed_of_isFinite`**: what is left of a text with six places is the decimal of a whole
  number of millionths;
* **`Binary64.fixed_ne_empty`**: a written number is never an empty text.
-/

namespace Seismic

namespace Numeral

/-- The characters of numbers: digits, a minus sign, a point, and the letters of the words for what
has no digits. -/
def inNumbers (c : Char) : Bool := c.isDigit || "-.NaNinf".toList.contains c

theorem isDigit_of_mem_digits {n : Nat} {c : Char} (h : c ∈ digits n) : c.isDigit = true :=
  Nat.isDigit_of_mem_toDigits (by decide) (by decide) h

theorem digits_ne_nil {n : Nat} : digits n ≠ [] := Nat.toDigits_ne_nil

theorem inNumbers_of_isDigit {c : Char} (h : c.isDigit = true) : inNumbers c = true := by
  rw [inNumbers, h, Bool.true_or]

theorem inNumbers_of_mem_ofNat {n : Nat} {c : Char} (h : c ∈ (ofNat n).toList) :
    inNumbers c = true := by
  rw [ofNat, String.toList_ofList] at h
  exact inNumbers_of_isDigit (isDigit_of_mem_digits h)

/-- Whole numbers are digits and perhaps a sign. -/
theorem inNumbers_of_mem_ofInt {n : Int} {c : Char} (h : c ∈ (ofInt n).toList) :
    inNumbers c = true := by
  unfold ofInt at h
  split at h
  · rw [String.toList_append, List.mem_append] at h
    rcases h with h | h
    · have hminus : c = '-' := List.mem_singleton.mp h
      rw [hminus]
      decide
    · exact inNumbers_of_mem_ofNat h
  · exact inNumbers_of_mem_ofNat h

/-! ## Reading back -/

/-- Digits are read back. -/
theorem nat?_digits (n : Nat) : nat? (digits n) = some n := by
  have hempty : (digits n).isEmpty = false := List.isEmpty_eq_false_iff.mpr digits_ne_nil
  have hdigits : (digits n).all Char.isDigit = true := by
    rw [List.all_eq_true]
    intro c hc
    exact isDigit_of_mem_digits hc
  unfold nat?
  rw [hempty, hdigits]
  exact congrArg some Nat.ofDigitChars_ten_toDigits

theorem splitSign_of_isDigit {c : Char} (h : c.isDigit = true) (rest : List Char) :
    splitSign (c :: rest) = (false, c :: rest) := by
  unfold splitSign
  split
  · next heq =>
    rw [(List.cons.inj heq).1] at h
    exact absurd h (by decide)
  · next heq =>
    rw [(List.cons.inj heq).1] at h
    exact absurd h (by decide)
  · rfl

/-- No digit is taken for a sign. -/
theorem splitSign_digits (n : Nat) : splitSign (digits n) = (false, digits n) := by
  obtain ⟨c, rest, hdigits⟩ := List.exists_cons_of_ne_nil (digits_ne_nil (n := n))
  have hc : c.isDigit = true := isDigit_of_mem_digits (hdigits ▸ List.mem_cons_self)
  rw [hdigits]
  exact splitSign_of_isDigit hc rest

/-- **A written whole number is read back.** -/
theorem int?_ofInt (n : Int) : int? (ofInt n).toList = some n := by
  unfold ofInt int?
  -- By the sign, which stands in front of the digits or not at all.
  by_cases hneg : n < 0
  · have hsplit : splitSign ("-" ++ ofNat n.natAbs).toList = (true, digits n.natAbs) := by
      simp only [String.toList_append, ofNat, String.toList_ofList]
      rfl
    rw [if_pos hneg, hsplit]
    simp only [nat?_digits, if_true]
    exact congrArg some (show -((n.natAbs : Nat) : Int) = n by omega)
  · rw [if_neg hneg, ofNat, String.toList_ofList, splitSign_digits]
    simp only [nat?_digits, Bool.false_eq_true, if_false]
    exact congrArg some (show ((n.natAbs : Nat) : Int) = n by omega)

theorem intWithin?_ofInt {lo hi n : Int} (hlo : lo ≤ n) (hhi : n ≤ hi) :
    intWithin? lo hi (ofInt n) = some n := by
  unfold intWithin?
  rw [int?_ofInt]
  simp [hlo, hhi]

end Numeral

namespace Binary64

open Numeral (inNumbers digits)

/-! ## Taking characters off an end -/

section TrimEnd

variable {c : Char} {text more : List Char}

/-- What is taken off is made of the one character. -/
theorem exists_eq_trimEnd_append (c : Char) (text : List Char) :
    ∃ k, text = trimEnd c text ++ List.replicate k c := by
  have htaken : text.rtakeWhile (· == c) =
      List.replicate (text.rtakeWhile (· == c)).length c := by
    rw [List.eq_replicate_iff]
    refine ⟨rfl, fun c' hc' => ?_⟩
    have hsame : (c' == c) = true := List.mem_rtakeWhile_imp (p := (· == c)) hc'
    exact beq_iff_eq.mp hsame
  refine ⟨(text.rtakeWhile (· == c)).length, ?_⟩
  rw [← htaken]
  exact List.rdropWhile_append_rtakeWhile.symm

/-- What is left does not end in the character. -/
theorem getLast?_trimEnd_ne (c : Char) (text : List Char) : (trimEnd c text).getLast? ≠ some c := by
  intro h
  have hne : trimEnd c text ≠ [] := by
    intro hnil
    rw [hnil] at h
    cases h
  rw [List.getLast?_eq_some_getLast hne, Option.some.injEq] at h
  exact List.rdropWhile_last_not (· == c) text hne (beq_iff_eq.mpr h)

theorem trimEnd_append_replicate (c : Char) (text : List Char) (k : Nat) :
    trimEnd c (text ++ List.replicate k c) = trimEnd c text := by
  unfold trimEnd
  rw [List.reverse_append, List.reverse_replicate, List.dropWhile_append_of_pos]
  intro c' hc'
  rw [List.eq_of_mem_replicate hc', beq_self_eq_true]

theorem trimEnd_of_getLast? (h : text.getLast? ≠ some c) : trimEnd c text = text := by
  refine List.rdropWhile_eq_self_iff.mpr fun hne hlast => h ?_
  rw [List.getLast?_eq_some_getLast hne, beq_iff_eq.mp hlast]

/-- What is in front of a text is kept, if something is kept of the text. -/
theorem trimEnd_append (text : List Char) (h : trimEnd c more ≠ []) :
    trimEnd c (text ++ more) = text ++ trimEnd c more := by
  obtain ⟨k, hk⟩ := exists_eq_trimEnd_append c more
  have hlast : (text ++ trimEnd c more).getLast? ≠ some c := by
    rw [List.getLast?_append_of_ne_nil _ h]
    exact getLast?_trimEnd_ne c more
  conv_lhs => rw [hk, ← List.append_assoc]
  rw [trimEnd_append_replicate, trimEnd_of_getLast? hlast]

theorem mem_of_mem_trimEnd {c' : Char} (h : c' ∈ trimEnd c text) : c' ∈ text :=
  (List.rdropWhile_prefix (· == c) text).subset h

end TrimEnd

/-! ## Six places and what is left of them -/

theorem isDigit_of_mem_sixDigits {n : Nat} {c : Char} (h : c ∈ sixDigits n) :
    c.isDigit = true := by
  rcases List.mem_append.mp h with hzero | hdigit
  · rw [List.eq_of_mem_replicate hzero]
    decide
  · exact Numeral.isDigit_of_mem_digits hdigit

/-- The six digits spell the number that they are made from. -/
theorem ofDigitChars_sixDigits (n : Nat) : Nat.ofDigitChars 10 (sixDigits n) 0 = n := by
  unfold sixDigits
  rw [Nat.ofDigitChars_append, Nat.ofDigitChars_replicate_zero, Nat.mul_zero]
  exact Nat.ofDigitChars_ten_toDigits

/-- The places of a number of millionths below one. -/
def placesText (n : Nat) : List Char := trimEnd '0' (sixDigits n)

/-- A point and places, nothing if there are no places. -/
def pointed (places : List Char) : List Char := if places = [] then [] else '.' :: places

/-- A number of millionths in decimal. -/
def millionthsText (n : Nat) : List Char :=
  digits (n / 1000000) ++ pointed (placesText (n % 1000000))

/-- A number of millionths in decimal with its sign. -/
def microsText (m : Int) : String :=
  String.ofList (if m < 0 then '-' :: millionthsText m.natAbs else millionthsText m.natAbs)

/-- A finite number in millionths, rounded to the nearest, a tie to the even one. -/
def micros (x : Binary64) : Int := if x.negative then -(x.millionths : Int) else x.millionths

/-- What is taken off the six digits is zeros. -/
theorem exists_eq_placesText_append (n : Nat) :
    ∃ k, sixDigits n = placesText n ++ List.replicate k '0' :=
  exists_eq_trimEnd_append '0' (sixDigits n)

/-- No place is left only of zero. -/
theorem placesText_eq_nil_iff {n : Nat} : placesText n = [] ↔ n = 0 := by
  constructor
  · intro hnil
    obtain ⟨k, hk⟩ := exists_eq_placesText_append n
    rw [hnil, List.nil_append] at hk
    have hvalue := ofDigitChars_sixDigits n
    rw [hk, Nat.ofDigitChars_replicate_zero, Nat.mul_zero] at hvalue
    exact hvalue.symm
  · rintro rfl
    rfl

theorem isDigit_of_mem_placesText {n : Nat} {c : Char} (h : c ∈ placesText n) : c.isDigit = true :=
  isDigit_of_mem_sixDigits (mem_of_mem_trimEnd h)

/-- **What is taken off a text with six places**: the zeros at its end, and the point with them if
there is nothing but zeros. -/
theorem trimEnd_sixPlaces {front : List Char} (hfront : ∀ c ∈ front.getLast?, c.isDigit = true)
    (n : Nat) :
    trimEnd '.' (trimEnd '0' (front ++ '.' :: sixDigits n)) = front ++ pointed (placesText n) := by
  have hpoint : front ++ '.' :: sixDigits n = (front ++ ['.']) ++ sixDigits n := by
    rw [List.append_assoc, List.singleton_append]
  -- Without places the point goes too, and the digits in front of it stay, zeros or not. With a
  -- place left, it guards the point.
  by_cases hzero : n = 0
  · subst hzero
    have hlast : (front ++ ['.']).getLast? ≠ some '0' := by
      rw [List.getLast?_concat]
      decide
    have hdigit : front.getLast? ≠ some '.' := fun h => absurd (hfront '.' h) (by decide)
    rw [hpoint, show sixDigits 0 = List.replicate 6 '0' from rfl, trimEnd_append_replicate,
      trimEnd_of_getLast? hlast, show ['.'] = List.replicate 1 '.' from rfl,
      trimEnd_append_replicate, trimEnd_of_getLast? hdigit]
    exact (List.append_nil front).symm
  · have hplaces : placesText n ≠ [] := mt placesText_eq_nil_iff.mp hzero
    have hlast : ((front ++ ['.']) ++ placesText n).getLast? ≠ some '.' := by
      rw [List.getLast?_append_of_ne_nil _ hplaces]
      intro h
      exact absurd (isDigit_of_mem_placesText (List.mem_of_getLast? h)) (by decide)
    rw [hpoint, trimEnd_append _ hplaces]
    refine (trimEnd_of_getLast? hlast).trans ?_
    rw [pointed, if_neg hplaces, List.append_assoc, List.singleton_append]

theorem digits_eq_zero_iff {n : Nat} : digits n = ['0'] ↔ n = 0 := by
  constructor
  · intro h
    have hvalue : Nat.ofDigitChars 10 (digits n) 0 = n := Nat.ofDigitChars_ten_toDigits
    rw [h] at hvalue
    exact hvalue.symm
  · rintro rfl
    rfl

/-- Only zero is written as a zero. -/
theorem millionthsText_eq_zero_iff {n : Nat} : millionthsText n = ['0'] ↔ n = 0 := by
  constructor
  · intro h
    unfold millionthsText pointed at h
    split at h
    · next hplaces =>
      rw [placesText_eq_nil_iff] at hplaces
      rw [List.append_nil, digits_eq_zero_iff] at h
      omega
    · -- A point behind the whole part is a second character.
      have hlength := congrArg List.length h
      have hpos : 0 < (digits (n / 1000000)).length := Nat.length_toDigits_pos
      rw [List.length_append, List.length_cons, List.length_singleton] at hlength
      omega
  · rintro rfl
    rfl

/-- The text of a sign. -/
def signText (negative : Bool) : List Char := if negative then ['-'] else []

/-- The text with six places, in its parts. -/
theorem sixPlaces_of_isFinite {x : Binary64} (h : x.isFinite = true) :
    x.sixPlaces = signText x.negative ++ digits (x.millionths / 1000000) ++
      '.' :: sixDigits (x.millionths % 1000000) := by
  unfold sixPlaces signText
  simp only [h, Bool.not_true, Bool.false_eq_true, if_false]
  split
  · rw [List.cons_append, List.nil_append, List.cons_append]
  · rw [List.nil_append]

/-- No other number of millionths is written like a negative zero. -/
theorem signText_append_eq_iff {negative : Bool} {n : Nat} :
    signText negative ++ millionthsText n = ['-', '0'] ↔ negative = true ∧ n = 0 := by
  cases negative with
  | true =>
    show '-' :: millionthsText n = ['-', '0'] ↔ _
    simp [millionthsText_eq_zero_iff]
  | false =>
    have hne : millionthsText n ≠ ['-', '0'] := by
      intro h
      have hhead := congrArg List.head? h
      unfold millionthsText at hhead
      rw [List.head?_append_of_ne_nil _ Numeral.digits_ne_nil] at hhead
      exact absurd (Numeral.isDigit_of_mem_digits (List.mem_of_head? hhead)) (by decide)
    simpa [signText] using hne

/-- A sign before a number of millionths is that of a whole number, once there is no negative
zero. -/
theorem microsText_eq (negative : Bool) (n : Nat) :
    microsText (if negative then -(n : Int) else n) =
      String.ofList (if signText negative ++ millionthsText n = ['-', '0'] then ['0']
        else signText negative ++ millionthsText n) := by
  unfold microsText
  -- A negative zero loses its sign; any other number keeps the one it has.
  by_cases hminus : negative = true ∧ n = 0
  · obtain ⟨rfl, rfl⟩ := hminus
    rfl
  · rw [if_neg (mt signText_append_eq_iff.mp hminus)]
    cases negative with
    | false =>
      simp only [Bool.false_eq_true, if_false]
      rw [if_neg (by omega), Int.natAbs_natCast]
      rfl
    | true =>
      have hne : n ≠ 0 := fun hzero => hminus ⟨rfl, hzero⟩
      simp only [if_true]
      rw [if_pos (by omega), Int.natAbs_neg, Int.natAbs_natCast]
      rfl

/-- **A finite number is written in millionths**: what is done to the text with six places leaves
the decimal of the rounded number, with a sign unless it is zero. -/
theorem fixed_of_isFinite {x : Binary64} (h : x.isFinite = true) : x.fixed = microsText x.micros := by
  have hpoint : x.sixPlaces.contains '.' = true := by
    rw [sixPlaces_of_isFinite h]
    simp
  have hleft : trimEnd '.' (trimEnd '0' x.sixPlaces) =
      signText x.negative ++ millionthsText x.millionths := by
    have hlast : ∀ c ∈ (signText x.negative ++ digits (x.millionths / 1000000)).getLast?,
        c.isDigit = true := by
      intro c hc
      rw [List.getLast?_append_of_ne_nil _ Numeral.digits_ne_nil] at hc
      exact Numeral.isDigit_of_mem_digits (List.mem_of_getLast? hc)
    rw [sixPlaces_of_isFinite h, trimEnd_sixPlaces hlast, millionthsText, List.append_assoc]
  unfold fixed micros
  dsimp only
  rw [if_pos hpoint, hleft, microsText_eq]

/-- What is not finite is written as a word, which is left as it is. -/
theorem fixed_of_not_isFinite {x : Binary64} (h : x.isFinite = false) : x.fixed = x.wordText := by
  have hword : x.wordText.toList.contains '.' = false ∧ x.wordText.toList ≠ ['-', '0'] := by
    unfold wordText
    split
    · decide
    · split <;> decide
  unfold fixed sixPlaces
  simp only [h, Bool.not_false, if_true]
  rw [hword.1, if_neg Bool.false_ne_true, if_neg hword.2, String.ofList_toList]

/-! ## Characters -/

theorem inNumbers_of_mem_millionthsText {n : Nat} {c : Char} (h : c ∈ millionthsText n) :
    inNumbers c = true := by
  unfold millionthsText pointed at h
  rcases List.mem_append.mp h with hwhole | hplaces
  · exact Numeral.inNumbers_of_isDigit (Numeral.isDigit_of_mem_digits hwhole)
  split at hplaces
  · cases hplaces
  · rcases List.mem_cons.mp hplaces with rfl | hplaces
    · decide
    · exact Numeral.inNumbers_of_isDigit (isDigit_of_mem_placesText hplaces)

/-- **The characters of a written number**, finite or not. -/
theorem inNumbers_of_mem_fixed {x : Binary64} {c : Char} (h : c ∈ x.fixed.toList) :
    inNumbers c = true := by
  have hword : x.wordText.toList.all inNumbers = true := by
    unfold wordText
    split
    · decide
    · split <;> decide
  cases hfinite : x.isFinite with
  | false =>
    rw [fixed_of_not_isFinite hfinite] at h
    exact List.all_eq_true.mp hword c h
  | true =>
    rw [fixed_of_isFinite hfinite, microsText, String.toList_ofList] at h
    split at h
    · rcases List.mem_cons.mp h with rfl | h
      · decide
      · exact inNumbers_of_mem_millionthsText h
    · exact inNumbers_of_mem_millionthsText h

theorem fixed_ne_empty (x : Binary64) : x.fixed ≠ "" := by
  have hword : x.wordText ≠ "" := by
    unfold wordText
    split
    · decide
    · split <;> decide
  have hdigits (n : Nat) : millionthsText n ≠ [] :=
    List.append_ne_nil_of_left_ne_nil Numeral.digits_ne_nil _
  cases hfinite : x.isFinite with
  | false =>
    rw [fixed_of_not_isFinite hfinite]
    exact hword
  | true =>
    intro h
    have hnil := congrArg String.toList h
    rw [fixed_of_isFinite hfinite, microsText, String.toList_ofList] at hnil
    split at hnil
    · cases hnil
    · exact hdigits _ hnil

end Binary64

end Seismic
