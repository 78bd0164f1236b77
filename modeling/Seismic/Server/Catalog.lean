import Seismic.Archive.Query

/-!
# Catalog — listings kept for a while

Listings are asked for often and change slowly, so the server keeps each kind for a fixed time. The
kinds are kept apart: a listing without metadata never answers for one with metadata.
-/

namespace Seismic

/-- A listing and the running time at which it is no longer good. -/
structure Kept (β : Type) where
  listing : List β
  expires : Nat
deriving DecidableEq

/-- The listings kept, and for how many milliseconds a new one is. Zero keeps none. -/
structure Catalog where
  lifetime : Nat := 30000
  brief : Option (Kept Listing) := none
  full : Option (Kept Listing) := none
  instruments : Option (Kept Instrument) := none
deriving DecidableEq

/-- A kind of listing: its place in the catalog and the query that answers it. -/
structure ListingKind (β : Type) where
  kept : Catalog → Option (Kept β)
  keep : Catalog → Kept β → Catalog
  query : Archive → List β

namespace ListingKind

def brief : ListingKind Listing where
  kept := (·.brief)
  keep c k := { c with brief := some k }
  query := Archive.listings false

def full : ListingKind Listing where
  kept := (·.full)
  keep c k := { c with full := some k }
  query := Archive.listings true

def instruments : ListingKind Instrument where
  kept := (·.instruments)
  keep c k := { c with instruments := some k }
  query := Archive.instrumentList

end ListingKind

namespace Catalog

/-- The listing of a kind, if one is kept and still good. -/
def find? {β : Type} (c : Catalog) (kind : ListingKind β) (running : Nat) : Option (List β) :=
  ((kind.kept c).filter fun k => running < k.expires).map (·.listing)

/-- Keeps a listing, unless none are kept. -/
def keep {β : Type} (c : Catalog) (kind : ListingKind β) (running : Nat) (listing : List β) :
    Catalog :=
  if c.lifetime = 0 then c else kind.keep c ⟨listing, running + c.lifetime⟩

def clear (c : Catalog) : Catalog := { lifetime := c.lifetime }

end Catalog

end Seismic
