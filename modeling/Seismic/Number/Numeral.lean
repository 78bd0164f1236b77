/-!
# Numeral — whole numbers in text

Counts, sids and samples are written in decimal without leading zeros. Requests and options may
spell a whole number with a sign and with leading zeros; what counts is that every other character
is a digit and that the value lies in the range the reader asks for.
-/

namespace Seismic.Numeral

/-! ## Writing -/

/-- The decimal digits of a natural number. -/
def digits (n : Nat) : List Char := Nat.toDigits 10 n

def ofNat (n : Nat) : String := String.ofList (digits n)

def ofInt (n : Int) : String :=
  if n < 0 then "-" ++ ofNat n.natAbs else ofNat n.natAbs

/-! ## Reading -/

/-- A natural number: one digit or more and nothing else. -/
def nat? (text : List Char) : Option Nat :=
  if text.isEmpty || !text.all Char.isDigit then none
  else some (Nat.ofDigitChars 10 text 0)

/-- Splits off a leading sign; the flag tells whether it was a minus. -/
def splitSign : List Char → Bool × List Char
  | '-' :: rest => (true, rest)
  | '+' :: rest => (false, rest)
  | text => (false, text)

/-- An integer: an optional sign and one digit or more. -/
def int? (text : List Char) : Option Int :=
  let (negative, body) := splitSign text
  (nat? body).map fun n => if negative then -(n : Int) else n

def intWithin? (lo hi : Int) (text : String) : Option Int :=
  (int? text.toList).filter fun n => lo ≤ n && n ≤ hi

/-- A natural number up to `hi`; a plus sign is allowed, a minus sign is not. -/
def natUpTo? (hi : Nat) (text : String) : Option Nat :=
  let body := match text.toList with
    | '+' :: rest => rest
    | text => text
  (nat? body).filter (· ≤ hi)

end Seismic.Numeral
