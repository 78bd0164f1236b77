import Seismic.Reply.Basic
import Seismic.Request.Basic
import Seismic.Server.Basic
import Seismic.Text.Escape

/-!
# Listings — menus, channel lists and metadata records

Listings show what the archive holds. Times in them have been put through the policy, so that no
client sees a time that it would be refused.
-/

namespace Seismic.Listings

/-! ## Menu -/

/-- The channels that have something to show, each with the span of it. -/
def servable (policy : Policy) (now : Time) (channels : List Listing) :
    List (Listing × Span Time) :=
  channels.filterMap fun c => (c.coverage.bind (policy.clampCoverage now)).map fun span => (c, span)

/-- The channels of a menu in the order of their archive codes. -/
def menuOrder (entries : List (Listing × Span Time)) : List (Listing × Span Time) :=
  entries.mergeSort fun a b => a.1.channel.address.code ≤ b.1.channel.address.code

/-- The entry of one channel in a menu. -/
def menuEntry (withLocation : Bool) (entry : Listing × Span Time) : String :=
  let (listing, span) := entry
  " " ++ Numeral.ofNat listing.sid ++ " " ++ listing.channel.address.wire withLocation ++ " "
    ++ span.start.wireText ++ " " ++ span.stop.wireText ++ " " ++ sampleType ++ " "

def menuLine (id : String) (withLocation : Bool) (entries : List (Listing × Span Time)) : String :=
  id ++ String.join ((menuOrder entries).map (menuEntry withLocation))

def menu (id : String) (withLocation : Bool) : Action Reply := do
  let channels ← Action.listing .brief
  let entries ← Action.read fun s => servable s.policy s.clock.now channels
  return .line (menuLine id withLocation entries)

/-! ## Channels -/

/-- Metadata as written fields, in the order of the keys. -/
def metadataFields (metadata : Metadata) : List String :=
  metadata.entries.map fun (key, value) => Escape.pair key value

/-- The line of one channel in a channel list: colons between its id, archive code, earliest and
latest time, its instrument's longitude, latitude and height, and its groups; in a verbose list
also its other name, unit, calibration and metadata. What is not known stays empty. -/
def channelLine (verbose : Bool) (instrument : Option Instrument) (span : Option (Span Time))
    (l : Listing) : String :=
  let c := l.channel
  let shown (f : Span Time → Time) := (span.map fun s => (f s).wireText).getD ""
  let placed (f : Instrument → Binary64) := (instrument.map fun i => (f i).fixed).getD ""
  let plain := [Numeral.ofNat l.sid, c.address.code, shown (·.start), shown (·.stop),
    placed (·.longitude), placed (·.latitude), placed (·.height), Text.join '|' c.groups]
  let more := [c.otherName.getD "", c.unit.getD "", c.linearA.fixed, c.linearB.fixed,
    Escape.record (metadataFields c.metadata)]
  Text.join ':' (if verbose then plain ++ more else plain)

/-- The instrument that records a channel, if it is listed. -/
def instrumentOf (instruments : List Instrument) (l : Listing) : Option Instrument :=
  l.channel.instrument.bind fun name => instruments.find? fun i => i.name = name

def channelLines (policy : Policy) (now : Time) (verbose : Bool) (instruments : List Instrument)
    (channels : List Listing) : List String :=
  channels.map fun l =>
    channelLine verbose (instrumentOf instruments l) (l.coverage.bind (policy.clampCoverage now)) l

/-- The reply to a channel list request. -/
def channels (id : String) (verbose : Bool) : Action Reply := do
  let listings ← Action.listing .full
  let instruments ← Action.listing .instruments
  return .block id (← Action.read fun s =>
    channelLines s.policy s.clock.now verbose instruments listings)

/-! ## Metadata -/

def instrumentRecord (i : Instrument) : String :=
  Escape.record <|
    [Escape.pair "name" i.name, Escape.pair "longitude" i.longitude.fixed,
      Escape.pair "latitude" i.latitude.fixed, Escape.pair "height" i.height.fixed,
      Escape.pair "timezone" (i.timezone.getD "")]
      ++ metadataFields i.metadata

def channelRecord (l : Listing) : String :=
  let c := l.channel
  Escape.record <|
    [Escape.pair "sid" (Numeral.ofNat l.sid), Escape.pair "channel" c.address.code,
      Escape.pair "instrument" (c.instrument.getD ""), Escape.pair "alias" (c.otherName.getD ""),
      Escape.pair "unit" (c.unit.getD ""), Escape.pair "linearA" c.linearA.fixed,
      Escape.pair "linearB" c.linearB.fixed, Escape.pair "groups" (Text.join ',' c.groups)]
      ++ metadataFields c.metadata

/-- The reply to a request for metadata records. -/
def records (id : String) : RecordKind → Action Reply
  | .instrument => return .block id ((← Action.listing .instruments).map instrumentRecord)
  | .channel => return .block id ((← Action.listing .full).map channelRecord)

end Seismic.Listings
