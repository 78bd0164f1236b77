import Seismic.Reply.Basic

/-!
# Window — which part of a requested span can be served

An operator may limit how many days of history are served and withhold the newest seconds. Both
limits move with the clock: the *retention boundary* is the oldest time that may be shown, the
*embargo edge* the newest.

A window is resolved against a channel's coverage under this policy. What can be served is the part
of the window that lies in the coverage and within the policy's limits. If there is none, the
failure says why, and the first reason that holds is given: the window is not in order, the channel
has nothing that may be shown, the window ends before what may be shown, or it starts after it.
-/

namespace Seismic

/-- Limits on what may be served: days of history, zero for no limit, and seconds before the
present that are withheld, zero or less for none. -/
structure Policy where
  maxDays : Nat := 0
  embargo : Time := 0
deriving DecidableEq

namespace Policy

/-- The oldest time that may be shown, if history is limited. -/
def retentionBoundary? (p : Policy) (now : Time) : Option Time :=
  if 0 < p.maxDays then some (now - Binary64.ofNat p.maxDays * Time.secondsPerDay) else none

/-- The newest time that may be shown, if any is withheld. -/
def embargoEdge? (p : Policy) (now : Time) : Option Time :=
  if (0 : Time).lt p.embargo then some (now - p.embargo) else none

/-- `t`, or the retention boundary if that is later. -/
def clampEarliest (p : Policy) (now t : Time) : Time :=
  match p.retentionBoundary? now with
  | some boundary => t.max boundary
  | none => t

/-- `t`, or the embargo edge if that is earlier. -/
def clampLatest (p : Policy) (now t : Time) : Time :=
  match p.embargoEdge? now with
  | some edge => t.min edge
  | none => t

/-- The part of a channel's coverage that may be shown, if there is one. -/
def clampCoverage (p : Policy) (now : Time) (coverage : Span Time) : Option (Span Time) :=
  let start := p.clampEarliest now coverage.start
  let stop := p.clampLatest now coverage.stop
  if start.le stop then some ⟨start, stop⟩ else none

end Policy

namespace Window

/-- The servable part of `requested`, or why there is none. -/
def resolve (policy : Policy) (now : Time) (requested : Span Time) (coverage : Option (Span Time)) :
    Except Failure (Span Time) :=
  if requested.stop.le requested.start then .error .badRange
  else
    match coverage.bind (policy.clampCoverage now) with
    | none => .error .gap
    | some shown =>
      let start := policy.clampEarliest now requested.start
      if requested.stop.lt shown.start then .error (.tooEarly shown.start)
      else if shown.stop.lt start then .error (.tooLate shown.stop)
      else .ok ⟨start.max shown.start, requested.stop.min shown.stop⟩

end Window

end Seismic
