import Seismic.Proofs.Registration

/-!
# Merging — what is stored under an address after a snapshot

The entries of a snapshot may name an address more than once, and in more than one spelling. What is
stored under the address in the end does not depend on the entries in between: it has the description
of the last one, and the segments of them all sorted into those it had before.

* **`Archive.at?_addRecorded`**: what one entry does to every address;
* **`Archive.at?_foldl_addRecorded`**, **`at?_load`**: what all entries do, and a snapshot;
* **`StoredChannel.merged?_holding`**: the same as a register holds it.
-/

namespace Seismic

/-- A channel with its segments, as snapshots list them. -/
abbrev Entry := Channel × List (Segment Time)

/-- The channel with more segments, one stored after the other. -/
def StoredChannel.givenAll (segments : List (Segment Time)) (c : StoredChannel) : StoredChannel :=
  { c with recording := segments.foldl (fun r segment => r.insert segment) c.recording }

/-- The entries of a snapshot with an address. -/
def entriesOf (address : Address) (entries : List Entry) : List Entry :=
  entries.filter fun entry => entry.1.address.normalized = address

/-- What is stored under an address after its entries, if `former` was stored there before: the
description of the last entry, and the former segments with those of all entries. -/
def StoredChannel.merged? (former : Option StoredChannel) (entries : List Entry) :
    Option StoredChannel :=
  match entries.getLast? with
  | none => former
  | some last =>
    some (.givenAll (entries.flatMap (·.2))
      ⟨last.1.normalized, (former.map (·.recording)).getD []⟩)

theorem StoredChannel.merged?_cons (former : Option StoredChannel) (entry : Entry)
    (rest : List Entry) : merged? former (entry :: rest) = merged? (merged? former [entry]) rest := by
  unfold merged?
  rw [List.getLast?_cons]
  cases hrest : rest.getLast? with
  | none =>
    rw [List.getLast?_eq_none_iff.mp hrest]
    rfl
  | some last =>
    -- The last entry is one of the rest, and only the segments of the first are left to count.
    simp only [List.getLast?_singleton, Option.getD_some, givenAll, List.flatMap_cons,
      List.flatMap_nil, List.append_nil, List.foldl_append, Option.map_some]

/-! ## What is stored under an address -/

namespace Archive

variable {a : Archive} {address : Address} {i : Nat} {c : StoredChannel}

def at? (a : Archive) (address : Address) : Option StoredChannel :=
  (a.place? address).bind fun i => a.channels[i]?

theorem at?_of_place? (h : a.place? address = some i) : a.at? address = a.channels[i]? := by
  rw [at?, h, Option.bind_some]

theorem at?_of_new (h : a.place? address = none) : a.at? address = none := by
  rw [at?, h, Option.bind_none]

/-- Two addresses have two places. -/
theorem place_ne {x y : Address} {j : Nat} (hx : a.place? x = some i) (hy : a.place? y = some j)
    (hne : y ≠ x) : i ≠ j := by
  rintro rfl
  obtain ⟨c, hc, rfl⟩ := getElem?_of_place? hx
  obtain ⟨d, hd, rfl⟩ := getElem?_of_place? hy
  rw [hc] at hd
  cases hd
  exact hne rfl

/-- A change at the place of one address leaves what is stored under the others. -/
theorem at?_modified {x : Address} (hx : a.place? x = some i) (hc : a.channels[i]? = some c)
    {f : StoredChannel → StoredChannel} (hf : (f c).channel.address = c.channel.address)
    (address : Address) :
    (a.modified i f).at? address = if address = x then some (f c) else a.at? address := by
  unfold at?
  rw [place?_modified_of_eq hc hf]
  by_cases heq : address = x
  · rw [heq, if_pos rfl, hx, Option.bind_some, getElem?_modified_self hc]
  · rw [if_neg heq]
    cases hplace : a.place? address with
    | none => rfl
    | some j =>
      rw [Option.bind_some, Option.bind_some, getElem?_modified]
      simp only [if_neg (place_ne hx hplace heq), Option.map_id']

theorem at?_extended (h : a.place? c.channel.address = none) (address : Address) :
    (a.extended c).at? address =
      if address = c.channel.address then some c else a.at? address := by
  unfold at?
  rw [place?_extended h]
  by_cases heq : address = c.channel.address
  · rw [if_pos heq, if_pos heq, Option.bind_some, extended,
      List.getElem?_append_right (Nat.le_refl _), Nat.sub_self]
    rfl
  · rw [if_neg heq, if_neg heq]
    cases hplace : a.place? address with
    | none => rfl
    | some j =>
      -- A place is one of those that were there before.
      obtain ⟨d, hd, -⟩ := getElem?_of_place? hplace
      rw [Option.bind_some, Option.bind_some, extended,
        List.getElem?_append_left (List.getElem?_eq_some_iff.mp hd).1]

/-- Registering a channel replaces the description and keeps the recording. -/
theorem at?_addChannel (a : Archive) (channel : Channel) (address : Address) :
    (a.addChannel channel).1.at? address =
      if address = channel.address.normalized then
        some ⟨channel.normalized, ((a.at? channel.address.normalized).map (·.recording)).getD []⟩
      else a.at? address := by
  rcases a.addChannel_cases channel with ⟨i, c, hplace, hc, haddress, hadd⟩ | ⟨hplace, hadd⟩
  · have hx : a.at? channel.address.normalized = some c := (at?_of_place? hplace).trans hc
    rw [hadd, at?_modified hplace hc haddress.symm, hx]
    rfl
  · have hx : a.at? channel.address.normalized = none := at?_of_new hplace
    rw [hadd, at?_extended hplace, hx]
    rfl

theorem place?_addChannel (a : Archive) (channel : Channel) :
    (a.addChannel channel).1.place? channel.address.normalized =
      some ((a.addChannel channel).2 - 1) := by
  rcases a.addChannel_cases channel with ⟨i, c, hplace, hc, haddress, hadd⟩ | ⟨hplace, hadd⟩
  · rw [hadd, place?_modified_of_eq hc haddress.symm]
    exact hplace
  · rw [hadd, place?_extended hplace]
    exact if_pos rfl

theorem at?_foldl_append {x : Address} (hx : a.place? x = some i) (hc : a.channels[i]? = some c)
    (segments : List (Segment Time)) (address : Address) :
    (segments.foldl (fun a segment => a.append i segment) a).at? address =
      if address = x then some (c.givenAll segments) else a.at? address := by
  induction segments generalizing a c with
  | nil =>
    by_cases heq : address = x
    · rw [heq, if_pos rfl]
      exact (at?_of_place? hx).trans hc
    · rw [if_neg heq]
      rfl
  | cons segment rest ih =>
    have hf : (StoredChannel.given segment c).channel.address = c.channel.address := rfl
    have hc' : (a.modified i (StoredChannel.given segment)).channels[i]? =
        some (StoredChannel.given segment c) := getElem?_modified_self hc _
    rw [List.foldl_cons]
    refine (ih ((place?_modified_of_eq hc hf x).trans hx) hc').trans ?_
    rw [at?_modified hx hc hf]
    split
    · rfl
    · rfl

/-- What one entry does to what is stored under an address. -/
theorem at?_addRecorded (a : Archive) (entry : Entry) (address : Address) :
    (a.addRecorded entry).at? address =
      if entry.1.address.normalized = address then
        StoredChannel.merged? (a.at? address) [entry]
      else a.at? address := by
  have hplace := a.place?_addChannel entry.1
  have hadded := a.at?_addChannel entry.1
  have hc := (at?_of_place? hplace).symm.trans ((hadded _).trans (if_pos rfl))
  refine (at?_foldl_append hplace hc entry.2 address).trans ?_
  by_cases heq : entry.1.address.normalized = address
  · rw [if_pos heq, if_pos heq.symm, heq]
    simp only [StoredChannel.merged?, List.getLast?_singleton, List.flatMap_cons, List.flatMap_nil,
      List.append_nil]
  · rw [if_neg heq, if_neg (Ne.symm heq), hadded, if_neg (Ne.symm heq)]

/-- **What is stored under an address after a list of entries.** -/
theorem at?_foldl_addRecorded (a : Archive) (entries : List Entry) (address : Address) :
    (entries.foldl addRecorded a).at? address =
      StoredChannel.merged? (a.at? address) (entriesOf address entries) := by
  induction entries generalizing a with
  | nil => rfl
  | cons entry rest ih =>
    rw [List.foldl_cons, ih, at?_addRecorded]
    by_cases heq : entry.1.address.normalized = address
    · simp only [entriesOf, List.filter_cons, heq, decide_true, if_true]
      exact (StoredChannel.merged?_cons _ entry _).symm
    · simp only [entriesOf, List.filter_cons, heq, decide_false, Bool.false_eq_true, if_false]

theorem at?_foldl_addInstrument (a : Archive) (instruments : List Instrument) (address : Address) :
    (instruments.foldl addInstrument a).at? address = a.at? address := by
  rw [foldl_addInstrument_eq]
  rfl

/-- **What is stored under an address after a snapshot.** -/
theorem at?_load (a : Archive) (snapshot : Snapshot) (address : Address) :
    (a.load snapshot).at? address =
      StoredChannel.merged? (a.at? address) (entriesOf address snapshot.channels) := by
  rw [load, at?_foldl_addRecorded, at?_foldl_addInstrument]

end Archive

/-! ## What is held -/

/-- What is held under an id after the entries with its address, if `former` was held before: the
description of the last entry, and the former segments with those of all entries, sorted anew. -/
def Holding.merged? (sid : Int32) (former : Option Holding) (entries : List Entry) :
    Option Holding :=
  match entries.getLast? with
  | none => former
  | some last =>
    let waves := Recording.sortedByStart
      ((former.map (·.waves)).getD [] ++ entries.flatMap (·.2))
    some ⟨⟨sid, last.1.normalized, waves.coverage⟩, waves⟩

theorem StoredChannel.merged?_holding {former : Option StoredChannel}
    (h : ∀ c, former = some c → c.recording.Sorted) (sid : Int32) (entries : List Entry) :
    (merged? former entries).map (·.holding sid) =
      Holding.merged? sid (former.map (·.holding sid)) entries := by
  have hsorted : Recording.Sorted ((former.map (·.recording)).getD []) := by
    cases former with
    | none => exact List.Pairwise.nil
    | some c => exact h c rfl
  have hwaves : ((former.map (·.holding sid)).map (·.waves)).getD [] =
      (former.map (·.recording)).getD [] := by
    rw [Option.map_map]
    rfl
  unfold merged? Holding.merged?
  cases entries.getLast? with
  | none => rfl
  | some last =>
    simp only [hwaves, ← Recording.foldl_insert hsorted]
    rfl

end Seismic
