import Seismic.Segment
import Seismic.Table

/-!
# Product — what is computed from samples, and its bytes

Strip charts and amplitude series are computed from *buckets*, the samples gathered by time. They
and waves are sent as bytes in a layout of their own.
-/

namespace Seismic

/-! ## Buckets

The samples whose times fall into the same interval, with intervals aligned on the multiples of
their length. The key of a bucket is the number of its interval. -/

/-- What is known of the samples in one interval. -/
structure Bucket (α : Type) where
  least : Int
  greatest : Int
  absoluteSum : α
  count : Nat
deriving DecidableEq

namespace Bucket

variable {α : Type} [Scalar α]

def single (sample : Int) : Bucket α :=
  ⟨sample, sample, Scalar.ofNat sample.natAbs, 1⟩

def add (b : Bucket α) (sample : Int) : Bucket α where
  least := min b.least sample
  greatest := max b.greatest sample
  absoluteSum := b.absoluteSum + Scalar.ofNat sample.natAbs
  count := b.count + 1

/-- The mean absolute value of the samples. -/
def mean (b : Bucket α) : α := b.absoluteSum / Scalar.ofNat b.count

/-- The key of the interval that a time falls into. -/
def key (interval time : α) : Int := Scalar.toKey (Scalar.floor (time / interval))

def gatherOne (interval : α) (buckets : Table Int (Bucket α)) (reading : α × Int32) :
    Table Int (Bucket α) :=
  let sample := reading.2.toInt
  buckets.alter (key interval reading.1) fun
    | none => single sample
    | some b => b.add sample

/-- The samples of the pieces in buckets of `interval` seconds. Missing samples are left out. -/
def gather (interval : α) (pieces : List (Segment α)) : Table Int (Bucket α) :=
  (pieces.flatMap Segment.readings).foldl (gatherOne interval) {}

end Bucket

/-! ## Helicorders

Least and greatest samples for strip charts. -/

/-- The range of the samples in one interval. -/
structure HelicorderRow (α : Type) where
  time : α
  least : α
  greatest : α
deriving DecidableEq

namespace Helicorder

/-- The length of an interval in seconds. Coarse charts are for long windows. -/
def interval {α : Type} [Scalar α] (coarse : Bool) : α :=
  Scalar.ofNat (if coarse then 60 else 10)

def row {α : Type} [Scalar α] (interval : α) (entry : Int × Bucket α) : HelicorderRow α where
  time := Scalar.ofInt entry.1 * interval
  least := Scalar.ofInt entry.2.least
  greatest := Scalar.ofInt entry.2.greatest

/-- The rows of the pieces in increasing order of time. Intervals without samples have no row. -/
def rows {α : Type} [Scalar α] (coarse : Bool) (pieces : List (Segment α)) :
    List (HelicorderRow α) :=
  (Bucket.gather (interval coarse) pieces).entries.map (row (interval coarse))

end Helicorder

/-! ## Amplitude series

An amplitude series has one value for each period that holds samples, the mean of their absolute
values. Native resolution is one value a second. -/

/-- The mean absolute amplitude in one period. -/
structure RsamRow (α : Type) where
  time : α
  value : α
deriving DecidableEq

namespace Rsam

/-- The longest period of a mean, in seconds. -/
def longestPeriod : Int := Nat.pow 2 32 - 1

/-- The period of the means that a request asks for, in seconds; native resolution below two. -/
def period? (requested : Int) : Option Nat :=
  if requested < 2 then none else some (min requested longestPeriod).toNat

/-- The length of a period in seconds. -/
def interval {α : Type} [Scalar α] (period : Option Nat) : α := Scalar.ofNat (period.getD 1)

def row {α : Type} [Scalar α] (interval : α) (entry : Int × Bucket α) : RsamRow α where
  time := Scalar.ofInt entry.1 * interval
  value := entry.2.mean

/-- The rows of the pieces in increasing order of time. Periods without samples have no row. -/
def rows {α : Type} [Scalar α] (period : Option Nat) (pieces : List (Segment α)) :
    List (RsamRow α) :=
  (Bucket.gather (interval period) pieces).entries.map (row (interval period))

end Rsam

/-! ## Layout

Binary replies carry a product in big-endian words:

* a wave: start and rate as binary64, the number of samples, the samples as 32-bit integers;
* a helicorder: the number of rows, then time, least and greatest of each row as binary64;
* an amplitude series: the number of rows, then time and value of each row as binary64.

Numbers of samples and rows are 32-bit integers. -/

abbrev Bytes := List UInt8

namespace Layout

/-- The `width` low bytes of a natural number, the highest first. -/
def word : (width : Nat) → Nat → Bytes
  | 0, _ => []
  | width + 1, n => word width (n / 256) ++ [UInt8.ofNat (n % 256)]

def number (x : Binary64) : Bytes := word 8 x.toBits.toNat

def integer (n : Int32) : Bytes := word 4 n.toUInt32.toNat

/-- A number of entries as four bytes. -/
def count (n : Nat) : Bytes := word 4 n

def wave (s : Segment Time) : Bytes :=
  number s.start ++ number s.rate ++ count s.length ++ s.samples.flatMap integer

def helicorder (rows : List (HelicorderRow Time)) : Bytes :=
  count rows.length ++ rows.flatMap fun r => number r.time ++ number r.least ++ number r.greatest

def rsam (rows : List (RsamRow Time)) : Bytes :=
  count rows.length ++ rows.flatMap fun r => number r.time ++ number r.value

end Layout

end Seismic
