/-!
# Address — the name of a channel

A channel is addressed by station, channel, network and location codes. A channel without a
location can be spelled in three ways: no location, an empty one, or the placeholder `--`. All
three name the same channel, and an address in the archive always uses the first.
-/

namespace Seismic

structure Address where
  station : String
  channel : String
  network : String
  location : Option String
deriving DecidableEq, Repr

namespace Address

/-- How a request or a reply writes that there is no location. -/
def placeholder : String := "--"

/-- Whether a location code stands for no location. -/
def isBlank (location : String) : Bool := location.isEmpty || location = placeholder

/-- The address with no location where its location code stands for none. -/
def normalized (a : Address) : Address :=
  match a.location with
  | some location => if isBlank location then { a with location := none } else a
  | none => a

/-- The address with the given codes. A location code that stands for none is left out. -/
def of (station channel network : String) (location : Option String) : Address where
  station := station
  channel := channel
  network := network
  location := location.filter fun l => !l.isEmpty && l ≠ placeholder

/-- Only the location is looked at. -/
theorem normalized_eq (a : Address) :
    a.normalized = { a with location := a.location.filter (!isBlank ·) } := by
  obtain ⟨station, channel, network, location⟩ := a
  unfold normalized
  cases location with
  | none => rfl
  | some code =>
    by_cases hblank : isBlank code = true
    · simp [Option.filter, hblank]
    · simp [Option.filter, hblank]

/-- **Codes make the address that they spell.** -/
theorem of_eq_normalized (station channel network : String) (location : Option String) :
    of station channel network location = normalized ⟨station, channel, network, location⟩ := by
  rw [normalized_eq]
  unfold of isBlank
  simp only [Bool.not_or, ne_eq, decide_not]

/-- The address of a channel without a location. -/
def ofThree (station channel network : String) : Address := of station channel network none

def locationText (a : Address) : String := a.location.getD placeholder

/-- A location that is written out is read as none if it stands for none. -/
theorem of_locationText (a : Address) :
    of a.station a.channel a.network (some a.locationText) = a.normalized := by
  rw [of_eq_normalized, normalized_eq, normalized_eq]
  unfold locationText
  cases a.location with
  | none => rfl
  | some location => rfl

/-- The archive code: the codes between dollar signs, without a location if there is none. -/
def code (a : Address) : String :=
  let three := a.station ++ "$" ++ a.channel ++ "$" ++ a.network
  match a.location with
  | some location => three ++ "$" ++ location
  | none => three

/-- The codes between spaces, with or without the location. -/
def wire (a : Address) (withLocation : Bool) : String :=
  let three := a.station ++ " " ++ a.channel ++ " " ++ a.network
  if withLocation then three ++ " " ++ a.locationText else three

/-- The order of addresses themselves: by station, channel, network and location code, no location
first. Listings are not in this order but by id or by archive code. -/
def before (a b : Address) : Bool :=
  if a.station ≠ b.station then a.station < b.station
  else if a.channel ≠ b.channel then a.channel < b.channel
  else if a.network ≠ b.network then a.network < b.network
  else match a.location, b.location with
    | none, some _ => true
    | some x, some y => x < y
    | _, none => false

end Address

end Seismic
