import Seismic.Number.Binary64
import Seismic.Number.Numeral

/-!
# Number — the numerals of JSON

A numeral keeps its spelling until something asks for its value, because one that nothing asks for
may be of any size.

As an integer a numeral has no point and no exponent and fits 64 bits. As a binary64 number an
integer is rounded once. Any other numeral is computed in steps that each round: its leading digits
make an integer of 64 bits, which is then scaled by one power of ten. The result can be one unit off
the nearest number.
-/

namespace Seismic.Json

/-- A numeral: its sign, its digits before and after the point, and its exponent. -/
structure Number where
  negative : Bool
  whole : List Char
  fraction : List Char := []
  exponent : Option Int := none
deriving DecidableEq, Repr

namespace Number

/-! ## Reading -/

/-- Whether digits may stand before the point: at least one, and no zero in front of another. -/
def isWhole : List Char → Bool
  | [] => false
  | '0' :: rest => rest.isEmpty
  | _ => true

/-- Splits off a point and the digits after it, of which there is at least one. -/
def point? : List Char → Option (List Char × List Char)
  | '.' :: rest =>
    let digits := rest.takeWhile Char.isDigit
    if digits.isEmpty then none else some (digits, rest.dropWhile Char.isDigit)
  | rest => some ([], rest)

/-- Splits off a minus sign. -/
def minus : List Char → Bool × List Char
  | '-' :: rest => (true, rest)
  | rest => (false, rest)

/-- The exponent after a numeral's digits: nothing, or a letter `e` and an integer. -/
def exponent? : List Char → Option (Option Int)
  | [] => some none
  | c :: rest => if c = 'e' || c = 'E' then (Numeral.int? rest).map some else none

def ofChars? (text : List Char) : Option Number := do
  let (negative, body) := minus text
  let whole := body.takeWhile Char.isDigit
  if !isWhole whole then none
  let (fraction, rest) ← point? (body.dropWhile Char.isDigit)
  some ⟨negative, whole, fraction, ← exponent? rest⟩

/-! ## Value -/

/-- Appends digits to a significand for as long as it fits 64 bits, and counts them. -/
def accumulate (significand : Nat) : List Char → Nat × Nat
  | [] => (significand, 0)
  | digit :: rest =>
    let next := significand * 10 + (digit.toNat - '0'.toNat)
    if next < Nat.pow 2 64 then
      let (significand, taken) := accumulate next rest
      (significand, taken + 1)
    else (significand, 0)

/-- The value of an integer that fits 64 bits, signed if it is negative. A negative zero is no
integer. -/
def int? (n : Number) : Option Int :=
  let (significand, taken) := accumulate 0 n.whole
  if taken < n.whole.length || !n.fraction.isEmpty || n.exponent.isSome then none
  else if !n.negative then some significand
  else if 0 < significand && significand ≤ Nat.pow 2 63 then some (-significand)
  else none

/-- A power of ten as a binary64 number. -/
def power (e : Nat) : Binary64 := .ofRatio false (Nat.pow 10 e) 1

/-- A number times a power of ten: one multiplication or division, after as many divisions by
`10 ^ 308` as bring the exponent into range. There is none if it is too large. -/
def scale? (x : Binary64) (e : Int) : Option Binary64 :=
  if x.code = 0 then some x
  else if 308 < e then none
  else if 0 ≤ e then
    let y := x * power e.toNat
    if y.isInfinite then none else some y
  else if -308 ≤ e then some (x / power (-e).toNat)
  else scale? (x / power 308) (e + 308)
termination_by (-e).toNat

/-- The leading digits as an integer of 64 bits, and the power of ten that goes with it. -/
def parts (n : Number) : Nat × Int :=
  let (whole, taken) := accumulate 0 n.whole
  let (significand, places) := accumulate whole n.fraction
  (significand, n.exponent.getD 0 + (n.whole.length - taken : Nat) - places)

/-- The value as a binary64 number; there is none if it is too large. -/
def float? (n : Number) : Option Binary64 :=
  match n.int? with
  | some i => some (.ofInt i)
  | none =>
    let (significand, e) := n.parts
    (scale? (.ofNat significand) e).map fun x => if n.negative then x.neg else x

end Number

end Seismic.Json
