/-!
# Table — values by key, in the order of the keys

Metadata, instruments and time buckets are listed by key. A table is the list of its entries with
increasing keys; every change keeps the order, so a listing is the table itself.
-/

namespace Seismic

/-- Values by key, in the order of the keys. -/
structure Table (κ ν : Type) where
  entries : List (κ × ν) := []
deriving DecidableEq, Repr

namespace Table

variable {κ ν : Type} [LT κ] [DecidableLT κ]

/-- The entries with the value at `key` replaced by what `f` makes of it. -/
def alterEntries (key : κ) (f : Option ν → ν) : List (κ × ν) → List (κ × ν)
  | [] => [(key, f none)]
  | (k, v) :: rest =>
    if key < k then (key, f none) :: (k, v) :: rest
    else if k < key then (k, v) :: alterEntries key f rest
    else (key, f (some v)) :: rest

/-- The table with the value at `key` replaced by what `f` makes of it. -/
def alter (t : Table κ ν) (key : κ) (f : Option ν → ν) : Table κ ν :=
  ⟨alterEntries key f t.entries⟩

def insert (t : Table κ ν) (key : κ) (value : ν) : Table κ ν :=
  t.alter key fun _ => value

/-- The table of a list of entries; the last value given to a key stays. -/
def ofList (entries : List (κ × ν)) : Table κ ν :=
  entries.foldl (fun t e => t.insert e.1 e.2) {}

/-- The values in the order of their keys. -/
def values (t : Table κ ν) : List ν := t.entries.map (·.2)

def find? [DecidableEq κ] (t : Table κ ν) (key : κ) : Option ν :=
  (t.entries.find? fun e => e.1 = key).map (·.2)

end Table

end Seismic
