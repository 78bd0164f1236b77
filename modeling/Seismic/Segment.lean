import Seismic.Time

/-!
# Segment — a contiguous run of samples

A segment holds samples at a fixed rate from a start time. Sample `i` is taken at
`start + i / rate`. A sample may be missing; it then holds `noData` and keeps its place.

`slice` cuts a segment to a window by computing the first and the last index inside it. A sample
within one millionth of a sample period of an end of the window counts as inside, so that rounding
in the time arithmetic loses none.
-/

namespace Seismic

/-- The sample value that marks a missing sample. -/
def noData : Int32 := Int32.minValue

/-- A contiguous run of samples at a fixed rate. -/
structure Segment (α : Type) where
  start : α
  rate : α
  samples : List Int32
deriving DecidableEq

namespace Segment

variable {α : Type} [Scalar α]

def length (s : Segment α) : Nat := s.samples.length

/-- The time of the sample at `index`, which need not exist. -/
def sampleTime (s : Segment α) (index : Nat) : α :=
  s.start + Scalar.ofNat index / s.rate

def lastTime (s : Segment α) : α := s.sampleTime (s.length - 1)

def hasData (s : Segment α) : Bool := s.samples.any (· ≠ noData)

/-- The index of the first sample inside `window`. -/
def firstIndex (s : Segment α) (window : Span α) : Nat :=
  Scalar.toIndex (Scalar.ceil ((window.start - s.start) * s.rate - Scalar.millionth))

/-- The index of the last sample inside `window`, if the window does not end before the first
sample. Nothing bounds it by the number of samples. -/
def lastIndex? (s : Segment α) (window : Span α) : Option Nat :=
  let last := Scalar.floor ((window.stop - s.start) * s.rate + Scalar.millionth)
  if Scalar.lt last (Scalar.ofInt 0) then none else some (Scalar.toIndex last)

/-- The samples from index `first` to index `last` as a segment of their own. -/
def cut (s : Segment α) (first last : Nat) : Segment α where
  start := s.sampleTime first
  rate := s.rate
  samples := (s.samples.drop first).take (last - first + 1)

/-- The samples inside `window`, or nothing if there are none. A segment whose rate is zero or
negative has no sample times and so none inside. -/
def slice (s : Segment α) (window : Span α) : Option (Segment α) :=
  if s.samples.isEmpty || Scalar.le s.rate (Scalar.ofInt 0) then none
  else
    (s.lastIndex? window).bind fun last =>
      let first := s.firstIndex window
      let last := min last (s.length - 1)
      if last < first then none else some (s.cut first last)

/-- The samples that are there, with their times. -/
def readings (s : Segment α) : List (α × Int32) :=
  s.samples.zipIdx.filterMap fun (sample, i) =>
    if sample = noData then none else some (s.sampleTime i, sample)

end Segment

end Seismic
