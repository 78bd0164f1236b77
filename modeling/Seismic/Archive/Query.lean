import Seismic.Archive.Basic
import Seismic.Product

/-!
# Query — what an archive can be asked

A query is a function of the archive's contents. `ask` runs one: it counts it and, if the archive
is offline, fails it. A product without rows is no product.
-/

namespace Seismic.Archive

def ask {β : Type} (a : Archive) (query : Archive → β) : Except ArchiveError β × Archive :=
  (if a.online then .ok (query a) else .error .offline, { a with queries := a.queries + 1 })

/-- The span of the samples stored for a channel. -/
def coverage (sid : Int) (a : Archive) : Option (Span Time) := (a.recording sid).coverage

def wave (sid : Int) (window : Span Time) (a : Archive) : Option (Segment Time) :=
  (a.recording sid).wave window a.maxSamples

def helicorder (sid : Int) (window : Span Time) (coarse : Bool) (a : Archive) :
    Option (List (HelicorderRow Time)) :=
  let rows := Helicorder.rows coarse ((a.recording sid).clipped window)
  if rows.isEmpty then none else some rows

def rsam (sid : Int) (window : Span Time) (period : Option Nat) (a : Archive) :
    Option (List (RsamRow Time)) :=
  let rows := Rsam.rows period ((a.recording sid).clipped window)
  if rows.isEmpty then none else some rows

/-- The stretches of a window without a reading. A channel that is not there has none at all. -/
def gaps (address : Address) (window : Span Time) (a : Archive) : List (Span Time) :=
  let recording := ((a.sidOf? address).map fun sid => a.recording (sid : Int)).getD []
  recording.gaps window

/-- All channels in the order of their ids, with groups and metadata if asked for. -/
def listings (withMetadata : Bool) (a : Archive) : List Listing :=
  a.channels.zipIdx.map fun (c, i) =>
    let listing : Listing := ⟨i + 1, c.channel, c.recording.coverage⟩
    if withMetadata then listing else listing.brief

/-- All instruments in the order of their names. -/
def instrumentList (a : Archive) : List Instrument := a.instruments.values

end Seismic.Archive
