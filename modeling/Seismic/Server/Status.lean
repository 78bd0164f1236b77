import Seismic.Reply.Basic
import Seismic.Server.Basic

/-!
# Status — protocol version, connections, channels and the age of the data

The age of a channel is the time since its newest sample that may be shown. The status gives the
median of the ages, or says that there is none. A threshold leaves out channels whose data are at
least that old.
-/

namespace Seismic

def protocolVersion : Nat := 3

namespace Status

/-- Values in increasing order; equal ones keep their order. -/
def sorted {α : Type} [Scalar α] (values : List α) : List α := values.mergeSort Scalar.totalLe

/-- The median of some values: the middle one of an odd number of them, the mean of the middle two
of an even number. -/
def median {α : Type} [Scalar α] (values : List α) : Option α :=
  let values := sorted values
  let middle := values.length / 2
  if values.length % 2 = 0 then
    match values[middle - 1]?, values[middle]? with
    | some a, some b => some ((a + b) / Scalar.ofNat 2)
    | _, _ => none
  else values[middle]?

/-- Whether an age counts towards the median. -/
def counts (threshold age : Time) : Bool := threshold.le 0 || age.lt threshold

/-- The ages of the channels that have samples and are not left out. -/
def ages (policy : Policy) (now threshold : Time) (channels : List Listing) : List Time :=
  ((channels.filterMap (·.coverage)).map fun span => now - policy.clampLatest now span.stop).filter
    (counts threshold)

def lines (server : Server) (threshold : Time) (channels : List Listing) : List String :=
  let age := (median (ages server.policy server.clock.now threshold channels)).map Binary64.fixed
  ["protocolVersion: " ++ Numeral.ofNat protocolVersion,
    "connectionCount: " ++ Numeral.ofNat server.counters.active.toNat,
    "channelCount: " ++ Numeral.ofNat channels.length,
    "medianDataAge: " ++ age.getD "n/a"]

def reply (id : String) (threshold : Time) : Action Reply := do
  let channels ← Action.listing .brief
  return .block id (← Action.read fun s => lines s threshold channels)

end Status

end Seismic
