import Seismic.Address
import Seismic.Table
import Seismic.Time

/-!
# Channel — what is known of channels and instruments
-/

namespace Seismic

/-- Free-form descriptions by name. -/
abbrev Metadata := Table String String

/-- Where and how an instrument is installed. -/
structure Instrument where
  name : String
  longitude : Binary64 := 0
  latitude : Binary64 := 0
  height : Binary64 := 0
  timezone : Option String := none
  metadata : Metadata := {}
deriving DecidableEq

/-- The description of a channel. A reading `x` stands for `linearA * x + linearB` in the channel's
unit; `instrument` names the instrument that records it. -/
structure Channel where
  address : Address
  linearA : Binary64 := 1
  linearB : Binary64 := 0
  otherName : Option String := none
  unit : Option String := none
  groups : List String := []
  metadata : Metadata := {}
  instrument : Option String := none
deriving DecidableEq

/-- A channel as listings show it: with its id in the archive and the span of its samples. -/
structure Listing where
  sid : Nat
  channel : Channel
  coverage : Option (Span Time)
deriving DecidableEq

namespace Listing

def brief (l : Listing) : Listing :=
  { l with channel := { l.channel with groups := [], metadata := {} } }

end Listing

end Seismic
