/-!
# Binary64 — the 64-bit floating-point numbers, computed exactly

Times, sampling rates and every product value of the archive are binary64 numbers. A number is
kept as its sign and its *magnitude code*, the 63 bits below the sign bit read as one natural
number. Two facts make this form convenient:

* the order of the magnitude codes is the order of the absolute values, infinity included, so a
  comparison is a comparison of integers (`rank`);
* every finite number is a whole number of `2 ^ -1074` (`units`), so an exact sum, product or
  quotient is a quotient of two natural numbers, and one function, `nearest`, rounds it.

Every operation computes the exact result and rounds it once: to the nearest number, a tie to the
one with an even code. Operations without a meaningful result give `nan`.

Powers are written as `Nat.pow`, which names the same function whatever else is imported.
-/

namespace Seismic

/-- A 64-bit floating-point number: a sign and a magnitude code. The codes from `0` up to
`infinityCode` are the magnitudes in increasing order, `infinityCode` is infinity, and the codes
above it are not numbers. -/
structure Binary64 where
  negative : Bool
  code : Nat
  code_lt : code < Nat.pow 2 63 := by decide
deriving DecidableEq

namespace Binary64

/-! ## Codes and bit patterns -/

/-- The code of infinity: an exponent field of all ones and an empty fraction. -/
def infinityCode : Nat := 2047 * Nat.pow 2 52

/-- The magnitude code of the bit pattern `bits`, without its sign bit. -/
theorem mod_lt_codes (bits : Nat) : bits % Nat.pow 2 63 < Nat.pow 2 63 :=
  Nat.mod_lt _ (by decide)

/-- The number with the given 64-bit pattern. -/
def ofBits (bits : UInt64) : Binary64 where
  negative := Nat.pow 2 63 ≤ bits.toNat
  code := bits.toNat % Nat.pow 2 63
  code_lt := mod_lt_codes _

/-- The 64-bit pattern of a number: the sign bit above the magnitude code. -/
def toBits (x : Binary64) : UInt64 :=
  UInt64.ofNat ((if x.negative then Nat.pow 2 63 else 0) + x.code)

def zero (negative : Bool) : Binary64 where
  negative := negative
  code := 0

def infinity (negative : Bool) : Binary64 where
  negative := negative
  code := infinityCode

/-- The result of an operation that has none. -/
def nan : Binary64 where
  negative := false
  code := infinityCode + Nat.pow 2 51

instance : Inhabited Binary64 := ⟨zero false⟩

/-- Not a number. -/
def isNaN (x : Binary64) : Bool := infinityCode < x.code

def isInfinite (x : Binary64) : Bool := x.code == infinityCode

def isFinite (x : Binary64) : Bool := x.code < infinityCode

/-! ## Order -/

/-- The place of a number on the line: codes grow with the magnitude, so the signed code orders
the numbers. Both zeros have rank `0`. -/
def rank (x : Binary64) : Int :=
  if x.negative then -(x.code : Int) else x.code

/-- Less than or equal; false when either side is not a number. -/
def le (x y : Binary64) : Bool :=
  !x.isNaN && !y.isNaN && decide (x.rank ≤ y.rank)

/-- Less than; false when either side is not a number. -/
def lt (x y : Binary64) : Bool :=
  !x.isNaN && !y.isNaN && decide (x.rank < y.rank)

/-- Numerically equal: the two zeros are equal, and nothing equals a `nan`. -/
def numEq (x y : Binary64) : Bool :=
  !x.isNaN && !y.isNaN && decide (x.rank = y.rank)

/-- The larger of two numbers, the second if they are equal, which tells the two zeros apart. Beside
a `nan` the other one wins. -/
def max (x y : Binary64) : Binary64 := if y.isNaN || y.lt x then x else y

/-- The smaller of two numbers, the second if they are equal. Beside a `nan` the other one wins. -/
def min (x y : Binary64) : Binary64 := if y.isNaN || x.lt y then x else y

/-- The place of a number in the total order of all bit patterns: negative `nan`s first, then the
numbers with `-0` before `0`, then positive `nan`s. -/
def totalRank (x : Binary64) : Int :=
  if x.negative then -(x.code : Int) - 1 else x.code

/-- The total order of all bit patterns, used for sorting. -/
def totalLe (x y : Binary64) : Bool := x.totalRank ≤ y.totalRank

/-! ## The exact value -/

/-- The number of units in one: the unit is `2 ^ -1074`, the least positive number. -/
def unitsPerOne : Nat := Nat.pow 2 1074

/-- The absolute value of a finite number in units. The codes below `2 ^ 53` count single units;
each further block of `2 ^ 52` codes doubles the step. -/
def magnitude (x : Binary64) : Nat :=
  let block := x.code / Nat.pow 2 52
  if block = 0 then x.code else (Nat.pow 2 52 + x.code % Nat.pow 2 52) * Nat.pow 2 (block - 1)

/-- The value of a finite number in units. -/
def units (x : Binary64) : Int :=
  if x.negative then -(x.magnitude : Int) else x.magnitude

/-- The exact value of a finite number. -/
def toRat (x : Binary64) : Rat := mkRat x.units unitsPerOne

/-! ## Rounding -/

/-- The integer nearest to `n / d`, a tie to the even one. -/
def roundHalfEven (n d : Nat) : Nat :=
  let q := n / d
  let r := n % d
  if 2 * r < d then q
  else if d < 2 * r then q + 1
  else q + q % 2

/-- The code of the magnitude nearest to `n / d` units, before overflow is looked at. Below
`2 ^ 53` units the steps are single units; above, as many low bits are rounded off as leave a
significand of 53 bits. A significand that rounds up to `2 ^ 53` carries into the next block of
codes by itself. -/
def nearestCode (n d : Nat) : Nat :=
  let shift := (n / d).log2 - 52
  shift * Nat.pow 2 52 + roundHalfEven n (d * Nat.pow 2 shift)

/-- The number nearest to `n / d` units with the given sign, infinity if that is out of range. -/
def nearest (negative : Bool) (n d : Nat) : Binary64 where
  negative := negative
  code := Nat.min (nearestCode n d) infinityCode
  code_lt := Nat.lt_of_le_of_lt (Nat.min_le_right _ _) (by decide)

def ofInt (n : Int) : Binary64 :=
  nearest (n < 0) (n.natAbs * unitsPerOne) 1

/-- The number nearest to a natural number. -/
def ofNat (n : Nat) : Binary64 :=
  nearest false (n * unitsPerOne) 1

/-- The number nearest to `n / d`. -/
def ofRatio (negative : Bool) (n d : Nat) : Binary64 :=
  nearest negative (n * unitsPerOne) d

instance (n : Nat) : OfNat Binary64 n := ⟨ofNat n⟩

/-! ## Arithmetic -/

def neg (x : Binary64) : Binary64 where
  negative := !x.negative
  code := x.code
  code_lt := x.code_lt

/-- The sum. A sum of opposite numbers is `0`, and `-0` only comes from two negative zeros. -/
def add (x y : Binary64) : Binary64 :=
  if x.isNaN || y.isNaN then nan
  else if x.isInfinite then
    if y.isInfinite && x.negative != y.negative then nan else x
  else if y.isInfinite then y
  else
    let sum := x.units + y.units
    if sum = 0 then zero (x.negative && y.negative) else nearest (sum < 0) sum.natAbs 1

def sub (x y : Binary64) : Binary64 := x.add y.neg

def mul (x y : Binary64) : Binary64 :=
  let negative := x.negative != y.negative
  if x.isNaN || y.isNaN then nan
  else if x.isInfinite then if y.code = 0 then nan else infinity negative
  else if y.isInfinite then if x.code = 0 then nan else infinity negative
  else nearest negative (x.magnitude * y.magnitude) unitsPerOne

/-- The quotient. A quotient by zero is infinite. -/
def div (x y : Binary64) : Binary64 :=
  let negative := x.negative != y.negative
  if x.isNaN || y.isNaN then nan
  else if x.isInfinite then if y.isInfinite then nan else infinity negative
  else if y.isInfinite then zero negative
  else if y.code = 0 then if x.code = 0 then nan else infinity negative
  else nearest negative (x.magnitude * unitsPerOne) y.magnitude

instance : Neg Binary64 := ⟨neg⟩
instance : Add Binary64 := ⟨add⟩
instance : Sub Binary64 := ⟨sub⟩
instance : Mul Binary64 := ⟨mul⟩
instance : Div Binary64 := ⟨div⟩

/-! ## Whole numbers -/

/-- The greatest integer not above a finite number. -/
def floorInt (x : Binary64) : Int := Int.fdiv x.units unitsPerOne

/-- The least integer not below a finite number. -/
def ceilInt (x : Binary64) : Int := -Int.fdiv (-x.units) unitsPerOne

/-- The integer nearest to a finite number, a half away from zero. -/
def roundInt (x : Binary64) : Int :=
  let half := (2 * x.magnitude + unitsPerOne) / (2 * unitsPerOne)
  if x.negative then -(half : Int) else half

/-- Rounds a finite number to the integer that `whole` picks, keeping its sign on a zero; leaves
infinities and `nan`s alone. -/
def toWhole (whole : Binary64 → Int) (x : Binary64) : Binary64 :=
  if x.isFinite then nearest x.negative ((whole x).natAbs * unitsPerOne) 1 else x

/-- The greatest whole number not above `x`. -/
def floor : Binary64 → Binary64 := toWhole floorInt

/-- The least whole number not below `x`. -/
def ceil : Binary64 → Binary64 := toWhole ceilInt

/-- The whole number nearest to `x`, a half away from zero. -/
def round : Binary64 → Binary64 := toWhole roundInt

/-- The integer part of `x`, clipped to the range from `lo` to `hi`; `0` for a `nan`. -/
def clipInt (lo hi : Int) (x : Binary64) : Int :=
  if x.isNaN then 0
  else if x.isInfinite then if x.negative then lo else hi
  else
    let whole := Int.tdiv x.units unitsPerOne
    if whole < lo then lo else if hi < whole then hi else whole

end Binary64

end Seismic
