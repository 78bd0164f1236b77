import Seismic.Address
import Seismic.Number.Decimal
import Seismic.Text.Escape
import Seismic.Time

/-!
# Command — a request line as tokens

The tokens of a line lie between single spaces. The first is the keyword, which may carry a colon;
the second is the request's id, which every reply repeats. Spaces and line ends at the end of a
line do not count. A line without a keyword is no command.
-/

namespace Seismic

structure Command where
  keyword : String
  arguments : List String
deriving DecidableEq, Repr

namespace Command

def stripColon (token : List Char) : List Char :=
  if token.getLast? = some ':' then token.dropLast else token

/-- The line without line ends and spaces at its end. -/
def trimmed (line : List Char) : List Char :=
  Text.trimEnd (· = ' ') (Text.trimEnd (fun c => c = '\r' || c = '\n') line)

def parse? (line : String) : Option Command :=
  match (trimmed line.toList).splitOn ' ' with
  | [] => none
  | first :: rest =>
    let keyword := stripColon first
    if keyword.isEmpty then none
    else some ⟨String.ofList keyword, rest.map String.ofList⟩

/-- All tokens, the keyword first. -/
def tokens (c : Command) : List String := c.keyword :: c.arguments

def length (c : Command) : Nat := c.tokens.length

def token? (c : Command) (index : Nat) : Option String := c.tokens[index]?

def id? (c : Command) : Option String := c.token? 1

/-- The token at `index` as a finite number. -/
def number? (c : Command) (index : Nat) : Option Binary64 :=
  ((c.token? index).bind Binary64.ofText?).filter (·.isFinite)

/-- The token at `index` as a signed 64-bit integer. -/
def integer? (c : Command) (index : Nat) : Option Int :=
  (c.token? index).bind (Numeral.intWithin? (-Nat.pow 2 63) (Nat.pow 2 63 - 1))

/-- The token at `index` as a flag, `0` or `1`. -/
def flag? (c : Command) (index : Nat) : Option Bool :=
  match c.token? index with
  | some "0" => some false
  | some "1" => some true
  | _ => none

/-- The channel addressed by the tokens from the third on, with or without a location. -/
def address? (c : Command) (withLocation : Bool) : Option Address := do
  let station ← c.token? 2
  let channel ← c.token? 3
  let network ← c.token? 4
  if withLocation then
    let location ← c.token? 5
    return .of station channel network (some location)
  else return .ofThree station channel network

/-- The window given by the wire times at `index` and after it. -/
def window? (c : Command) (index : Nat) : Option (Span Time) := do
  let start ← c.number? index
  let stop ← c.number? (index + 1)
  return ⟨Time.ofWire start, Time.ofWire stop⟩

/-- Whether there are `count` tokens and those at `index` and after it are numbers. -/
def hasTimes (c : Command) (count index : Nat) : Bool :=
  c.length == count && (c.number? index).isSome && (c.number? (index + 1)).isSome

end Command

end Seismic
