import Seismic.Snapshot

/-!
# Register — the archive as two maps and a counter

What an archive holds is kept in three places that have to agree: a map from addresses to ids, a map
from ids to channels with their segments, and the id that the next new channel gets. A channel is
stored with its id and the span of its samples beside its description. Both are the register's own:
whatever id and span come with a description are dropped.

Ids are 32-bit integers and are given out from one on.
-/

namespace Seismic

/-- A description with an id and the span of its samples. -/
structure Registered where
  sid : Int32
  channel : Channel
  span : Option (Span Time)
deriving DecidableEq

/-- A channel and its segments in the order of their starts. -/
structure Holding where
  registered : Registered
  waves : Recording
deriving DecidableEq

namespace Holding

def refreshed (h : Holding) : Holding :=
  { h with registered := { h.registered with span := h.waves.coverage } }

/-- The channel with one more segment, sorted in by its start. -/
def put (h : Holding) (segment : Segment Time) : Holding :=
  let waves := (h.waves ++ [segment]).mergeSort fun a b => a.start.totalLe b.start
  { h with waves }.refreshed

end Holding

/-- The two maps and the counter, and the instruments by name. -/
structure Register where
  ids : List (Address × Int32) := []
  channels : Table Int32 Holding := {}
  instruments : Table String Instrument := {}
  nextSid : Int32 := 1
deriving DecidableEq

inductive LoadError where
  | malformed
  | failed (error : ArchiveError)
deriving DecidableEq, Repr

namespace Register

def sidOf? (r : Register) (address : Address) : Option Int32 := r.ids.lookup address

def addInstrument (r : Register) (instrument : Instrument) : Register :=
  { r with instruments := r.instruments.insert instrument.name instrument }

/-- Registers a channel with its description and returns its id. If its address is known, the id and
the span stay as they are and the description is replaced. -/
def insertChannel (r : Register) (given : Registered) : Register × Int32 :=
  let channel := { given.channel with address := given.channel.address.normalized }
  match r.sidOf? channel.address with
  | some sid =>
    match r.channels.find? sid with
    | some held =>
      let registered := { sid, channel, span := held.registered.span }
      ({ r with channels := r.channels.insert sid { held with registered } }, sid)
    | none => (r, sid)
  | none =>
    let sid := r.nextSid
    ({ r with
        ids := (channel.address, sid) :: r.ids
        channels := r.channels.insert sid ⟨{ sid, channel, span := none }, []⟩
        nextSid := sid + 1 }, sid)

def addChannel (r : Register) (address : Address) : Register × Int32 :=
  r.insertChannel ⟨0, { address }, none⟩

/-- Stores a segment for the channel with an id. -/
def putWave (r : Register) (sid : Int32) (segment : Segment Time) :
    Except ArchiveError Unit × Register :=
  match r.channels.find? sid with
  | none => (.error (.unknownSid sid.toInt), r)
  | some held => (.ok (), { r with channels := r.channels.insert sid (held.put segment) })

/-! ## Snapshots -/

/-- Takes one step after the other, up to the first that fails. -/
def each {α : Type} (step : Register → α → Except ArchiveError Unit × Register) :
    List α → Register → Except ArchiveError Unit × Register
  | [], r => (.ok (), r)
  | x :: rest, r =>
    match step r x with
    | (.ok (), r) => each step rest r
    | failed => failed

def putWaves (r : Register) (sid : Int32) (segments : List (Segment Time)) :
    Except ArchiveError Unit × Register :=
  each (fun r segment => r.putWave sid segment) segments r

/-- Registers a channel and stores its segments. -/
def insertRecorded (r : Register) (entry : Channel × List (Segment Time)) :
    Except ArchiveError Unit × Register :=
  let (r, sid) := r.insertChannel ⟨0, entry.1, none⟩
  r.putWaves sid entry.2

def insertAll (r : Register) (entries : List (Channel × List (Segment Time))) :
    Except ArchiveError Unit × Register :=
  each insertRecorded entries r

/-- Adds the instruments and then the channels of a snapshot, if the text is one. -/
def load (r : Register) (text : String) : Except LoadError Unit × Register :=
  match Snapshot.ofText? text with
  | none => (.error .malformed, r)
  | some snapshot =>
    match (snapshot.instruments.foldl addInstrument r).insertAll snapshot.channels with
    | (.ok (), r) => (.ok (), r)
    | (.error e, r) => (.error (.failed e), r)

end Register

/-! ## Runs -/

/-- A call that changes what an archive holds. -/
inductive Change where
  | addInstrument (instrument : Instrument)
  | addChannel (address : Address)
  | insertChannel (given : Registered)
  | putWave (sid : Int32) (segment : Segment Time)
  | load (text : String)

/-- What a call gives back. -/
inductive ChangeResult where
  | done
  | registered (sid : Int)
  | failed (error : LoadError)
deriving DecidableEq, Repr

def ChangeResult.ofExcept : Except LoadError Unit → ChangeResult
  | .ok () => .done
  | .error e => .failed e

namespace Register

def perform (r : Register) : Change → ChangeResult × Register
  | .addInstrument instrument => (.done, r.addInstrument instrument)
  | .addChannel address =>
    let (r, sid) := r.addChannel address
    (.registered sid.toInt, r)
  | .insertChannel given =>
    let (r, sid) := r.insertChannel given
    (.registered sid.toInt, r)
  | .putWave sid segment =>
    let (result, r) := r.putWave sid segment
    (.ofExcept (result.mapError .failed), r)
  | .load text =>
    let (result, r) := r.load text
    (.ofExcept result, r)

/-- One call after the other, whether they fail or not. -/
def run (r : Register) : List Change → List ChangeResult × Register
  | [] => ([], r)
  | change :: rest =>
    let (outcome, r) := r.perform change
    let (outcomes, r) := r.run rest
    (outcome :: outcomes, r)

end Register

end Seismic
