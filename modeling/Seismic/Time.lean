import Seismic.Number.Scalar
import Seismic.Number.Decimal

/-!
# Time — two epochs, spans and a clock

Requests and replies count seconds from 1970-01-01 00:00:00 UTC, the *wire* epoch. The archive
counts seconds from 2000-01-01 12:00:00 UTC. The epochs are a whole number of seconds apart, so a
conversion is one addition. A span is a closed interval of time.

A clock has a wall time, which dates answers, and a running time in milliseconds, which never
jumps and ages cached listings.
-/

namespace Seismic

/-- A time in seconds. Unless a name says otherwise it counts from the archive's epoch. -/
abbrev Time := Binary64

namespace Time

/-- Seconds from the wire epoch to the archive's epoch. -/
def epochOffset : Time := 946728000

def secondsPerDay : Time := 86400

/-- Archive time of a wire time. -/
def ofWire (t : Time) : Time := t - epochOffset

/-- Wire time of an archive time. -/
def toWire (t : Time) : Time := t + epochOffset

/-- An archive time as replies write it: in wire seconds, with at most six places. -/
def wireText (t : Time) : String := (toWire t).fixed

end Time

/-- A moment on the wall clock, in seconds and nanoseconds from the wire epoch. -/
structure Moment where
  seconds : Int
  nanoseconds : Nat
deriving DecidableEq, Repr

namespace Moment

/-- The archive time of a moment, to the microsecond below it. -/
def time (m : Moment) : Time :=
  Time.ofWire (Binary64.ofInt m.seconds + Binary64.ofNat (m.nanoseconds / 1000) / 1000000)

/-- The first and the last second that a calendar date can name. -/
def firstSecond : Int := -8334601228800
def lastSecond : Int := 8210266876799

/-- A moment that has a calendar date. Only the last second of a minute may run on for another
second, which is how a leap second is written. -/
def dated? (seconds : Int) (nanoseconds : Nat) : Option Moment :=
  let leap := Int.emod seconds 60 = 59
  if firstSecond ≤ seconds && seconds ≤ lastSecond && nanoseconds < 2000000000
      && (nanoseconds < 1000000000 || leap) then
    some ⟨seconds, nanoseconds⟩
  else none

def later (m : Moment) (ms : Nat) : Moment :=
  let total := m.nanoseconds + ms * 1000000
  ⟨m.seconds + total / 1000000000, total % 1000000000⟩

end Moment

structure Clock where
  wall : Moment
  running : Nat
deriving DecidableEq, Repr

namespace Clock

def now (c : Clock) : Time := c.wall.time

def advance (c : Clock) (ms : Nat) : Clock :=
  ⟨c.wall.later ms, c.running + ms⟩

end Clock

/-- A closed interval of time. Nothing forces its ends to be in order: a request may ask for an
interval that ends before it starts. -/
structure Span (α : Type) where
  start : α
  stop : α
deriving DecidableEq

namespace Span

def duration {α : Type} [Scalar α] (s : Span α) : α := s.stop - s.start

def covers {α : Type} [Scalar α] (s inner : Span α) : Bool :=
  Scalar.le s.start inner.start && Scalar.le inner.stop s.stop

/-- A span in brackets, as descriptions of requests show it. -/
def text (s : Span Binary64) : String :=
  "[" ++ s.start.shortest ++ ", " ++ s.stop.shortest ++ "]"

end Span

end Seismic
