import Seismic.Number.Binary64

/-!
# Scalar — the arithmetic that times are computed in

Cutting a segment to a window, sorting samples into buckets and taking a median are written once,
over any type with the operations below. The archive runs them on `Binary64`, where every step
rounds. The same definitions read at `Rat` compute without rounding, and say what the rounded
answers stand for.
-/

namespace Seismic

/-- A type of numbers in which times and sampling rates are computed. -/
class Scalar (α : Type) extends Add α, Sub α, Mul α, Div α where
  ofInt : Int → α
  /-- One millionth, the slack allowed when a time is matched to a sample. -/
  millionth : α
  le : α → α → Bool
  lt : α → α → Bool
  /-- The order that sorting uses; it ranks every two values. -/
  totalLe : α → α → Bool
  floor : α → α
  ceil : α → α
  /-- The integer part as an index; `0` where there is none. -/
  toIndex : α → Nat
  /-- The integer part as a bucket key; `0` where there is none. -/
  toKey : α → Int

namespace Scalar

/-- The number nearest to a natural number. -/
def ofNat {α : Type} [Scalar α] (n : Nat) : α := ofInt (n : Int)

/-- Binary64 arithmetic. Indices are clipped to 64 bits, keys to signed 64 bits. -/
instance : Scalar Binary64 where
  ofInt := Binary64.ofInt
  millionth := Binary64.ofRatio false 1 1000000
  le := Binary64.le
  lt := Binary64.lt
  totalLe := Binary64.totalLe
  floor := Binary64.floor
  ceil := Binary64.ceil
  toIndex x := (x.clipInt 0 (Nat.pow 2 64 - 1)).toNat
  toKey := Binary64.clipInt (-Nat.pow 2 63) (Nat.pow 2 63 - 1)

/-- Exact arithmetic. -/
instance : Scalar Rat where
  ofInt n := n
  millionth := mkRat 1 1000000
  le a b := decide (a ≤ b)
  lt a b := decide (a < b)
  totalLe a b := decide (a ≤ b)
  floor a := a.floor
  ceil a := a.ceil
  toIndex a := a.floor.toNat
  toKey a := a.floor

end Scalar

end Seismic
