import Seismic.Archive.Basic
import Seismic.Json.Reading
import Seismic.Text.Utf8

/-!
# Snapshot — an archive's contents as a document

A snapshot lists instruments and channels, each channel with its segments. Reading is all or
nothing. Ids and spans that a snapshot gives are checked and then left aside: the archive assigns
the ids, and the spans follow from the segments.
-/

namespace Seismic

structure Snapshot where
  instruments : List Instrument := []
  channels : List (Channel × List (Segment Time)) := []
deriving DecidableEq

namespace Snapshot

open Json (required defaulted)

/-! ## Reading -/

def instrument? (json : Json) : Option Instrument := do
  let [name, longitude, latitude, height, timezone, metadata] ←
    json.fields? ["name", "longitude", "latitude", "height", "timezone", "metadata"] | none
  some {
    name := ← required Json.text? name
    longitude := ← defaulted 0 Json.float? longitude
    latitude := ← defaulted 0 Json.float? latitude
    height := ← defaulted 0 Json.float? height
    timezone := ← defaulted none (Json.optional? Json.text?) timezone
    metadata := ← defaulted {} Json.textTable? metadata }

def address? (json : Json) : Option Address := do
  let [station, channel, network, location] ←
    json.fields? ["station", "channel", "network", "location"] | none
  some (Address.normalized {
    station := ← required Json.text? station
    channel := ← required Json.text? channel
    network := ← required Json.text? network
    location := ← defaulted none (Json.optional? Json.text?) location })

def span? (json : Json) : Option (Span Time) := do
  let [start, stop] ← json.fields? ["start", "end"] | none
  some { start := ← required Json.float? start, stop := ← required Json.float? stop }

def segment? (json : Json) : Option (Segment Time) := do
  let [start, rate, samples] ← json.fields? ["start", "sampling_rate", "samples"] | none
  some {
    start := ← required Json.float? start
    rate := ← required Json.float? rate
    samples := ← required (Json.list? Json.int32?) samples }

def channel? (json : Json) : Option Channel := do
  let [sid, address, span, linearA, linearB, otherName, unit, groups, metadata, instrument] ←
    json.fields? ["sid", "scnl", "span", "linear_a", "linear_b", "alias", "unit", "groups",
      "metadata", "instrument"] | none
  let _ ← defaulted 0 Json.int32? sid
  let _ ← defaulted none (Json.optional? span?) span
  some {
    address := ← required address? address
    linearA := ← defaulted 1 Json.float? linearA
    linearB := ← defaulted 0 Json.float? linearB
    otherName := ← defaulted none (Json.optional? Json.text?) otherName
    unit := ← defaulted none (Json.optional? Json.text?) unit
    groups := ← defaulted [] (Json.list? Json.text?) groups
    metadata := ← defaulted {} Json.textTable? metadata
    instrument := ← defaulted none (Json.optional? Json.text?) instrument }

/-- How deep containers may lie within an entry of a channel. -/
def entryLevels : Nat := 124

/-- A channel with its segments: an object whose entry `waves` holds the segments and whose other
entries describe the channel. Those have to be proper documents even where nothing reads them. -/
def recorded? : Json → Option (Channel × List (Segment Time))
  | .object entries => do
    let (waves, description) := entries.partition fun e => e.1 = some "waves"
    let [waves] ← (Json.object waves).fields? ["waves"] | none
    if !description.all fun e => e.2.isProper entryLevels then none
    some (← channel? (.object description), ← defaulted [] (Json.list? segment?) waves)
  | _ => none

def ofJson? (json : Json) : Option Snapshot := do
  let [instruments, channels] ← json.fields? ["instruments", "channels"] | none
  some {
    instruments := ← defaulted [] (Json.list? instrument?) instruments
    channels := ← defaulted [] (Json.list? recorded?) channels }

/-- The snapshot that a text spells. What loading does with it does not depend on how documents are
spelled, so all that is proved of loading holds with any other reader in the place of
`Json.ofText?`. -/
def ofText? (text : String) : Option Snapshot := (Json.ofText? text).bind ofJson?

inductive FileError where
  | notText
  | notSnapshot
deriving DecidableEq, Repr

def FileError.message : FileError → String
  | notText => "the snapshot is not UTF-8"
  | notSnapshot => "the snapshot is not well-formed"

/-- The snapshot in the bytes of a file. -/
def ofFile (bytes : List UInt8) : Except FileError Snapshot :=
  match Utf8.decode? bytes with
  | none => .error .notText
  | some text =>
    match ofText? text with
    | none => .error .notSnapshot
    | some snapshot => .ok snapshot

end Snapshot

/-! ## Loading -/

namespace Archive

/-- Registers a channel and stores its segments. -/
def addRecorded (a : Archive) (entry : Channel × List (Segment Time)) : Archive :=
  let (a, sid) := a.addChannel entry.1
  entry.2.foldl (fun a segment => a.append (sid - 1) segment) a

/-- Adds the instruments and then the channels of a snapshot. -/
def load (a : Archive) (snapshot : Snapshot) : Archive :=
  snapshot.channels.foldl addRecorded (snapshot.instruments.foldl addInstrument a)

end Archive

end Seismic
