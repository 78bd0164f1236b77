import Seismic.Archive.Query

/-!
# Listed — what channel lists tell of an archive

A channel list with all descriptions shows everything about the channels but their samples: the id
of every address and the coverage of every id can be read off it. The brief list is the full one
with less in each entry.
-/

namespace Seismic.Archive

/-- **An entry is made of the channel at its place.** -/
theorem listings_getElem? (a : Archive) (i : Nat) :
    (a.listings true)[i]? =
      a.channels[i]?.map fun c => ⟨i + 1, c.channel, c.recording.coverage⟩ := by
  unfold listings
  rw [List.getElem?_map, List.getElem?_zipIdx, Option.map_map]
  simp only [Function.comp_def, if_true, Nat.zero_add]

/-- The brief list leaves out the same in every entry. -/
theorem listings_false (a : Archive) : a.listings false = (a.listings true).map Listing.brief := by
  unfold listings
  rw [List.map_map]
  rfl

theorem mem_listings_iff {a : Archive} {l : Listing} :
    l ∈ a.listings true ↔
      ∃ i c, a.channels[i]? = some c ∧ l = ⟨i + 1, c.channel, c.recording.coverage⟩ := by
  rw [List.mem_iff_getElem?]
  refine exists_congr fun i => ?_
  rw [listings_getElem?, Option.map_eq_some_iff]
  exact exists_congr fun c => and_congr_right fun _ => eq_comm

/-- The list has all descriptions. -/
theorem map_channel_listings (a : Archive) :
    (a.listings true).map (·.channel) = a.channels.map (·.channel) := by
  refine List.ext_getElem? fun i => ?_
  rw [List.getElem?_map, listings_getElem?, List.getElem?_map, Option.map_map]
  rfl

/-- The id of an address is decided by the descriptions. -/
theorem sidOf?_eq_findIdx? (a : Archive) (address : Address) :
    a.sidOf? address =
      (((a.listings true).map (·.channel)).findIdx? fun c => c.address = address).map (· + 1) := by
  rw [map_channel_listings, List.findIdx?_map]
  rfl

/-- So is the coverage of an id, since one without a channel has none. -/
theorem coverage_eq_bind (a : Archive) (sid : Nat) :
    a.coverage sid =
      if sid = 0 then none else ((a.listings true)[sid - 1]?).bind (·.coverage) := by
  have hempty : Recording.coverage [] = none := by decide +kernel
  unfold coverage recording stored?
  by_cases hzero : sid = 0
  · rw [if_pos hzero, if_pos (by omega)]
    exact hempty
  · rw [if_neg hzero, if_neg (by omega), Int.toNat_natCast, listings_getElem?]
    -- An id without a channel has an empty recording.
    cases a.channels[sid - 1]? with
    | none => exact hempty
    | some c => rfl

theorem coverage_of_getElem? {a : Archive} {i : Nat} {c : StoredChannel}
    (h : a.channels[i]? = some c) : a.coverage (i + 1 : Nat) = c.recording.coverage := by
  rw [coverage_eq_bind, if_neg (Nat.succ_ne_zero i), Nat.add_sub_cancel, listings_getElem?, h]
  rfl

end Seismic.Archive
