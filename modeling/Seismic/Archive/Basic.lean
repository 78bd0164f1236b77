import Seismic.Channel
import Seismic.Recording

/-!
# Archive — channels, instruments and what is stored for them

Channels are kept in the order in which they were first registered, and a channel's id is its place
in that order, counted from one. Ids are therefore never reused and never change. An address names
at most one channel, since registering it again replaces the description and keeps the recording.

The archive can be taken offline; its contents stay, but every query fails. Queries are counted,
failed ones too.
-/

namespace Seismic

structure StoredChannel where
  channel : Channel
  recording : Recording := []
deriving DecidableEq

structure Archive where
  channels : List StoredChannel := []
  instruments : Table String Instrument := {}
  online : Bool := true
  maxSamples : Nat := 10000000
  queries : Nat := 0
deriving DecidableEq

inductive ArchiveError where
  /-- The archive is offline. -/
  | offline
  /-- No more requests are admitted to the archive. -/
  | closed
  /-- There is no channel with this id. -/
  | unknownSid (sid : Int)
deriving DecidableEq, Repr

namespace ArchiveError

def message : ArchiveError → String
  | offline => "archive unavailable: archive offline"
  | closed => "archive unavailable: archive pool closed"
  | unknownSid sid => "archive query failed: no channel with sid " ++ Numeral.ofInt sid

end ArchiveError

namespace Archive

/-- An empty archive whose waves are at most `cap` samples long, and at least one. -/
def withMaxSamples (cap : Nat) : Archive := { maxSamples := max cap 1 }

/-! ## Lookup -/

/-- The place of the channel with an address, counted from zero. -/
def place? (a : Archive) (address : Address) : Option Nat :=
  a.channels.findIdx? fun c => c.channel.address = address

/-- The id of the channel with an address. -/
def sidOf? (a : Archive) (address : Address) : Option Nat :=
  (a.place? address).map (· + 1)

def stored? (a : Archive) (sid : Int) : Option StoredChannel :=
  if sid < 1 then none else a.channels[sid.toNat - 1]?

/-- The recording of the channel with an id, empty if there is none. -/
def recording (a : Archive) (sid : Int) : Recording :=
  ((a.stored? sid).map (·.recording)).getD []

/-! ## Changes -/

/-- Adds an instrument, or replaces the one of that name. -/
def addInstrument (a : Archive) (instrument : Instrument) : Archive :=
  { a with instruments := a.instruments.insert instrument.name instrument }

/-- Registers a channel under its normalized address and returns its id. A channel that is already
there keeps its id and its recording and takes the new description. -/
def addChannel (a : Archive) (channel : Channel) : Archive × Nat :=
  let channel := { channel with address := channel.address.normalized }
  match a.place? channel.address with
  | some i =>
    ({ a with channels := a.channels.modify i fun c => { c with channel := channel } }, i + 1)
  | none => ({ a with channels := a.channels ++ [{ channel := channel }] }, a.channels.length + 1)

/-- Adds a segment to the recording of the channel at a place, counted from zero. -/
def append (a : Archive) (place : Nat) (segment : Segment Time) : Archive :=
  { a with
    channels := a.channels.modify place fun c =>
      { c with recording := c.recording.insert segment } }

/-- Stores a segment for the channel with an id. -/
def store (a : Archive) (sid : Int) (segment : Segment Time) : Except ArchiveError Archive :=
  if (a.stored? sid).isSome then .ok (a.append (sid.toNat - 1) segment)
  else .error (.unknownSid sid)

/-- Brings the archive online or takes it offline. -/
def setOnline (a : Archive) (online : Bool) : Archive := { a with online := online }

end Archive

end Seismic
