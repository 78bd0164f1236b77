import Seismic.Number.Binary64
import Seismic.Number.Numeral

/-!
# Decimal — binary64 numbers as text

Reading takes a numeral such as `-12.5e3` as the exact decimal it spells and rounds once. Only an
exponent beyond `2 ^ 16` is not taken as it is spelled. Two printers go the other way:

* `fixed` keeps at most six places and no trailing zeros; it writes every number of a reply;
* `shortest` writes the fewest digits that read back as the same number, never in exponent form;
  it writes the windows of a request's description.
-/

namespace Seismic

/-- A decimal numeral: `digits * 10 ^ exponent`, with a sign. -/
structure Decimal where
  negative : Bool
  digits : Nat
  exponent : Int
deriving DecidableEq, Repr

namespace Decimal

/-! ## Reading -/

/-- The value of an exponent's digits, read on from `value` until it has reached `2 ^ 16`; the
digits after that are passed over. -/
def exponentValue (value : Nat) : List Char → Nat
  | [] => value
  | digit :: rest =>
    if value < Nat.pow 2 16 then exponentValue (value * 10 + (digit.toNat - '0'.toNat)) rest else value

/-- The exponent that a sign and digits spell. -/
def exponent? (text : List Char) : Option Int :=
  let (negative, digits) := Numeral.splitSign text
  if digits.isEmpty || !digits.all Char.isDigit then none
  else
    let value := exponentValue 0 digits
    some (if negative then -(value : Int) else value)

/-- The exponent after a numeral's digits: nothing, or a letter `e` and an exponent. -/
def exponentPart : List Char → Option Int
  | [] => some 0
  | c :: rest => if c = 'e' || c = 'E' then exponent? rest else none

/-- The digits after a decimal point, and the rest; no digits where there is no point. -/
def fractionPart : List Char → List Char × List Char
  | '.' :: rest => (rest.takeWhile Char.isDigit, rest.dropWhile Char.isDigit)
  | rest => ([], rest)

/-- Reads a decimal numeral: an optional sign, digits with at most one point among or beside them,
at least one digit, and an optional exponent. -/
def read? (text : List Char) : Option Decimal :=
  let (negative, body) := Numeral.splitSign text
  let whole := body.takeWhile Char.isDigit
  let (fraction, rest) := fractionPart (body.dropWhile Char.isDigit)
  if whole.isEmpty && fraction.isEmpty then none
  else (exponentPart rest).map fun exponent =>
    { negative := negative
      digits := Nat.ofDigitChars 10 (whole ++ fraction) 0
      exponent := exponent - fraction.length }

/-- A power of ten beyond which every numeral is infinite and below whose inverse it is zero. -/
def exponentLimit : Int := 400

/-- The binary64 number nearest to a decimal. The exact quotient is rounded once; numerals that
are far out of range are decided by their number of bits alone, before a power is computed: a
positive number of `b + 1` bits is at least `10 ^ (b * 3 / 10)` and below `10 ^ (b / 3 + 1)`. -/
def toBinary64 (d : Decimal) : Binary64 :=
  let bits := d.digits.log2
  if d.digits = 0 then .zero d.negative
  else if exponentLimit < d.exponent + (bits * 3 / 10 : Nat) then .infinity d.negative
  else if d.exponent + (bits / 3 + 1 : Nat) < -exponentLimit then .zero d.negative
  else if 0 ≤ d.exponent then .ofRatio d.negative (d.digits * Nat.pow 10 d.exponent.toNat) 1
  else .ofRatio d.negative d.digits (Nat.pow 10 (-d.exponent).toNat)

end Decimal

namespace Binary64

/-- A word for a value that has no digits, in either case: `nan`, `inf` or `infinity`. -/
def ofWord? (negative : Bool) (word : List Char) : Option Binary64 :=
  let word := word.map Char.toLower
  if word = ['n', 'a', 'n'] then some { nan with negative := negative }
  else if word = ['i', 'n', 'f'] || word = ['i', 'n', 'f', 'i', 'n', 'i', 't', 'y'] then
    some (infinity negative)
  else none

/-- Reads a number: a decimal numeral, or a word for infinity or `nan` after an optional sign. -/
def ofText? (text : String) : Option Binary64 :=
  match Decimal.read? text.toList with
  | some d => some d.toBinary64
  | none =>
    let (negative, word) := Numeral.splitSign text.toList
    ofWord? negative word

/-! ## Six places -/

/-- The absolute value of a finite number in millionths, rounded to the nearest, a tie to the even
one. -/
def millionths (x : Binary64) : Nat :=
  roundHalfEven (x.magnitude * 1000000) unitsPerOne

/-- Six digits of a number of millionths below one. -/
def sixDigits (n : Nat) : List Char :=
  List.replicate (6 - (Numeral.digits n).length) '0' ++ Numeral.digits n

/-- The text of an infinity or a `nan`. -/
def wordText (x : Binary64) : String :=
  if x.isNaN then "NaN" else if x.negative then "-inf" else "inf"

/-- Writes a number with six places, or as a word if it has no digits. A number that is rounded to
zero keeps its sign. -/
def sixPlaces (x : Binary64) : List Char :=
  if !x.isFinite then x.wordText.toList
  else
    let whole := Numeral.digits (x.millionths / 1000000)
    let text := whole ++ '.' :: sixDigits (x.millionths % 1000000)
    if x.negative then '-' :: text else text

/-- A text up to where it ends in nothing but the given character. -/
def trimEnd (c : Char) (text : List Char) : List Char :=
  (text.reverse.dropWhile (· == c)).reverse

/-- Writes a number with at most six places and no trailing zeros. The zeros are taken off only
where there is a point, and the point with them if nothing else stands behind it. There is no
negative zero. -/
def fixed (x : Binary64) : String :=
  let text := x.sixPlaces
  let text := if text.contains '.' then trimEnd '.' (trimEnd '0' text) else text
  String.ofList (if text = ['-', '0'] then ['0'] else text)

/-! ## Shortest digits -/

/-- The power of ten of a number's leading digit, counted down from `start`: the greatest `e` not
above `start` with `10 ^ e` units-of-one within the number. -/
def leadingPower (n : Nat) : Nat → Int → Int
  | 0, e => e
  | fuel + 1, e =>
    let within := if 0 ≤ e then unitsPerOne * Nat.pow 10 e.toNat ≤ n
      else unitsPerOne ≤ n * Nat.pow 10 (-e).toNat
    if within then e else leadingPower n fuel (e - 1)

/-- The multiple of `10 ^ power` at or just below `n` units, and how far above it `n` lies; the
distance and the step are in the same unit. -/
def decimalBelow (n : Nat) (power : Int) : Nat × Nat × Nat :=
  if 0 ≤ power then
    let step := unitsPerOne * Nat.pow 10 power.toNat
    (n / step, n % step, step)
  else
    let scaled := n * Nat.pow 10 (-power).toNat
    (scaled / unitsPerOne, scaled % unitsPerOne, unitsPerOne)

/-- The decimal on the grid `10 ^ power` that reads back as `x` and lies nearest to it, if one
does. Of two at the same distance it is the one with the greater absolute value. -/
def onGrid? (x : Binary64) (power : Int) : Option Decimal :=
  let (below, above, step) := decimalBelow x.magnitude power
  let readsBack (n : Nat) : Option Decimal :=
    let d : Decimal := ⟨x.negative, n, power⟩
    if d.toBinary64 = x then some d else none
  if 2 * above < step then readsBack below <|> readsBack (below + 1)
  else readsBack (below + 1) <|> readsBack below

/-- The shortest decimal that reads back as `x`, searched on finer and finer grids from
`10 ^ power` down. -/
def shortestFrom (x : Binary64) : Nat → Int → Decimal
  | 0, power => ⟨x.negative, x.magnitude, power⟩
  | fuel + 1, power =>
    match x.onGrid? power with
    | some d => d
    | none => shortestFrom x fuel (power - 1)

/-- The shortest decimal of a finite number; among those of its length the nearest one. The search
starts one power above the leading digit, for a number just below a power of ten that rounds up to
it. Seventeen digits are always enough. -/
def shortestDecimal (x : Binary64) : Decimal :=
  if x.code = 0 then ⟨x.negative, 0, 0⟩
  else shortestFrom x 18 (leadingPower x.magnitude 640 308 + 1)

def positional (d : Decimal) : List Char :=
  let digits := Numeral.digits d.digits
  let body :=
    if 0 ≤ d.exponent then digits ++ List.replicate d.exponent.toNat '0'
    else
      let places := (-d.exponent).toNat
      let padded := List.replicate (places + 1 - digits.length) '0' ++ digits
      padded.take (padded.length - places) ++ '.' :: padded.drop (padded.length - places)
  if d.negative then '-' :: body else body

/-- Writes a number with the fewest digits that read back as the same number. -/
def shortest (x : Binary64) : String :=
  if x.isFinite then String.ofList (positional x.shortestDecimal) else x.wordText

end Binary64

end Seismic
