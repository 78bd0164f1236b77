/-!
# Utf8 — text as bytes

Replies leave the server as UTF-8. Request lines arrive as any bytes; a byte sequence that is not
UTF-8 is cut into *parts*, each one a character or a maximal stretch that could have begun one, and
each ill-formed part stands for one replacement character.

The reader is a machine over the bytes. Between characters it is in `start`; after a leading byte
it is `within` a character and knows the range the next byte must fall into, which after the
leading bytes `E0`, `ED`, `F0` and `F4` is narrower than that of all continuation bytes.
-/

namespace Seismic.Utf8

def encode (text : String) : List UInt8 :=
  text.toList.flatMap String.utf8EncodeChar

/-- A character begun but not finished: the range of its next byte, the number of bytes after that
one, and the bits read so far. -/
structure Pending where
  low : UInt8
  high : UInt8
  more : Nat
  bits : Nat

inductive State where
  | start
  | within (pending : Pending)

/-- Reads a byte between characters: the parts it completes, and the next state. -/
def lead (b : UInt8) : List (Option Char) × State :=
  if b < 0x80 then ([some (Char.ofNat b.toNat)], .start)
  else if b < 0xC2 then ([none], .start)
  else if b < 0xE0 then ([], .within ⟨0x80, 0xBF, 0, b.toNat % 32⟩)
  else if b < 0xF0 then
    let low := if b = 0xE0 then 0xA0 else 0x80
    let high := if b = 0xED then 0x9F else 0xBF
    ([], .within ⟨low, high, 1, b.toNat % 16⟩)
  else if b < 0xF5 then
    let low := if b = 0xF0 then 0x90 else 0x80
    let high := if b = 0xF4 then 0x8F else 0xBF
    ([], .within ⟨low, high, 2, b.toNat % 8⟩)
  else ([none], .start)

/-- The parts of a byte sequence: a character, or `none` for a maximal ill-formed stretch. A byte
that breaks off a character is read again as a leading byte. -/
def parts : State → List UInt8 → List (Option Char)
  | .start, [] => []
  | .within _, [] => [none]
  | .start, b :: rest => (lead b).1 ++ parts (lead b).2 rest
  | .within p, b :: rest =>
    if p.low ≤ b && b ≤ p.high then
      let bits := p.bits * 64 + b.toNat % 64
      match p.more with
      | 0 => some (Char.ofNat bits) :: parts .start rest
      | more + 1 => parts (.within ⟨0x80, 0xBF, more, bits⟩) rest
    else none :: (lead b).1 ++ parts (lead b).2 rest

/-- The character that stands for an ill-formed stretch. -/
def replacement : Char := Char.ofNat 0xFFFD

/-- The text of any byte sequence, with a replacement character for each ill-formed stretch. -/
def decodeLossy (bytes : List UInt8) : String :=
  String.ofList ((parts .start bytes).map (·.getD replacement))

/-- The text of a well-formed byte sequence. -/
def decode? (bytes : List UInt8) : Option String :=
  let parts := parts .start bytes
  if parts.all Option.isSome then some (String.ofList (parts.filterMap id)) else none

end Seismic.Utf8
