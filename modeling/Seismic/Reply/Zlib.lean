import Seismic.Reply.Basic

/-!
# Zlib — payloads in stored blocks

A client may ask for a payload as a zlib stream. The compressor of this module, which is the one
that the program runs with, writes the payload as it is in stored blocks: a header, blocks of at
most 65535 bytes that each give their length twice, once complemented, and a checksum of the payload.
Any other compressor that writes zlib streams may stand in its place.
-/

namespace Seismic.Zlib

/-- The modulus of the checksum, the largest prime below `2 ^ 16`. -/
def checksumModulus : Nat := 65521

/-- The two sums of the checksum after one more byte. -/
def checksumStep (sums : Nat × Nat) (b : UInt8) : Nat × Nat :=
  let low := (sums.1 + b.toNat) % checksumModulus
  (low, (sums.2 + low) % checksumModulus)

def checksum (raw : Bytes) : Nat :=
  let sums := raw.foldl checksumStep (1, 0)
  sums.2 * 65536 + sums.1

/-- Four bytes of a number, the highest first. -/
def fourBytes (n : Nat) : Bytes :=
  [n / 16777216, n / 65536, n / 256, n].map UInt8.ofNat

/-- Two bytes of a number, the lowest first. -/
def twoBytes (n : Nat) : Bytes := [n, n / 256].map UInt8.ofNat

/-- The greatest length of a stored block. -/
def blockLimit : Nat := 65535

/-- One stored block: whether it is the last, its length, the complement of that, its bytes. -/
def block (final : Bool) (bytes : Bytes) : Bytes :=
  (if final then 1 else 0) :: twoBytes bytes.length ++ twoBytes (blockLimit - bytes.length) ++ bytes

/-- A payload in stored blocks; an empty payload is one empty block. -/
def blocks (raw : Bytes) : Bytes :=
  if _ : raw.length ≤ blockLimit then block true raw
  else block false (raw.take blockLimit) ++ blocks (raw.drop blockLimit)
termination_by raw.length
decreasing_by
  simp only [List.length_drop, blockLimit] at *
  omega

def pack (raw : Bytes) : Bytes :=
  [0x78, 0x9C] ++ blocks raw ++ fourBytes (checksum raw)

instance storedBlocks : Compressor where
  deflate := pack

end Seismic.Zlib
