import Seismic.Proofs.Recordings
import Seismic.Snapshot

/-!
# Placing — where an archive keeps its channels

A channel's place in the archive is decided when its address first comes up. Registering it again
and storing segments leave all addresses where they are.

* **`Archive.addChannel_cases`** and **`Archive.store_cases`** say everything that a change does;
* **`Archive.Orderly`** is what holds of an archive together with the segments that it was given,
  and every change keeps it (`Orderly.describe`, `Orderly.extend`, `Orderly.insert`).
-/

namespace Seismic

/-- The description under its normalized address, which is how it is stored. -/
def Channel.normalized (c : Channel) : Channel := { c with address := c.address.normalized }

theorem Channel.address_normalized (c : Channel) :
    c.normalized.address = c.address.normalized := rfl

namespace StoredChannel

/-- The channel with another description. -/
def described (channel : Channel) (c : StoredChannel) : StoredChannel := { c with channel }

/-- The channel with one more segment. -/
def given (segment : Segment Time) (c : StoredChannel) : StoredChannel :=
  { c with recording := c.recording.insert segment }

end StoredChannel

/-- Normalizing is done once and for all. -/
theorem Address.normalized_normalized (a : Address) : a.normalized.normalized = a.normalized := by
  simp only [normalized_eq, Option.filter_filter, Bool.and_self]

/-- A normalized address has none of the texts for no location. -/
theorem Address.location_ne_of_normalized {a : Address} {location : String}
    (h : a.normalized = a) (hblank : isBlank location = true) : a.location ≠ some location := by
  intro heq
  have hlocation := congrArg Address.location h
  simp [normalized_eq, heq, hblank] at hlocation

namespace Archive

variable {a : Archive} {address : Address} {i : Nat} {c : StoredChannel}

/-! ## Addresses and places -/

/-- The addresses of the channels in the order of their places. -/
def addresses (a : Archive) : List Address := a.channels.map (·.channel.address)

/-- A place depends on the addresses alone. -/
theorem place?_eq_findIdx? (a : Archive) (address : Address) :
    a.place? address = a.addresses.findIdx? fun x => x = address := by
  unfold place? addresses
  rw [List.findIdx?_map]
  rfl

theorem place?_eq_none_iff : a.place? address = none ↔ address ∉ a.addresses := by
  rw [place?_eq_findIdx?, List.findIdx?_eq_none_iff]
  constructor
  · intro h hmem
    exact absurd rfl (of_decide_eq_false (h address hmem))
  · intro h x hx
    exact decide_eq_false fun heq => h (heq ▸ hx)

/-- At the place of an address there is a channel with it. -/
theorem getElem?_of_place? (h : a.place? address = some i) :
    ∃ c, a.channels[i]? = some c ∧ c.channel.address = address := by
  obtain ⟨hi, heq, -⟩ := List.findIdx?_eq_some_iff_getElem.mp h
  exact ⟨a.channels[i], List.getElem?_eq_getElem hi, of_decide_eq_true heq⟩

/-- Where every address is there once, the channel with an address is found. -/
theorem place?_of_getElem? (hdistinct : a.addresses.Nodup) (h : a.channels[i]? = some c) :
    a.place? c.channel.address = some i := by
  obtain ⟨hi, hc⟩ := List.getElem?_eq_some_iff.mp h
  refine List.findIdx?_eq_some_iff_getElem.mpr ⟨hi, decide_eq_true (by rw [hc]), fun j hji => ?_⟩
  have hj : j < a.addresses.length := by
    rw [addresses, List.length_map]
    omega
  have hi' : i < a.addresses.length := by rwa [addresses, List.length_map]
  intro heq
  have hsame : a.addresses[j] = a.addresses[i] := by
    simp only [addresses, List.getElem_map, hc]
    exact of_decide_eq_true heq
  exact List.pairwise_iff_getElem.mp hdistinct j i hj hi' hji hsame

/-- Ids count from one, places from zero. -/
theorem stored?_succ (a : Archive) (i : Nat) : a.stored? (i + 1 : Nat) = a.channels[i]? := by
  unfold stored?
  rw [if_neg (by omega), Int.toNat_natCast, Nat.add_sub_cancel]

theorem stored?_of_lt {sid : Int} (h : sid < 1) : a.stored? sid = none := by
  unfold stored?
  rw [if_pos h]

theorem lt_one_or_succ (sid : Int) : sid < 1 ∨ ∃ i : Nat, sid = (i + 1 : Nat) := by
  by_cases h : sid < 1
  · exact .inl h
  · exact .inr ⟨sid.toNat - 1, by omega⟩

/-- **What is stored under an id is the channel at the place before it.** -/
theorem stored?_eq_some_iff {sid : Int} :
    a.stored? sid = some c ↔ ∃ i : Nat, sid = (i + 1 : Nat) ∧ a.channels[i]? = some c := by
  constructor
  · intro h
    rcases lt_one_or_succ sid with hlt | ⟨i, rfl⟩
    · rw [stored?_of_lt hlt] at h
      cases h
    · rw [stored?_succ] at h
      exact ⟨i, rfl, h⟩
  · rintro ⟨i, rfl, h⟩
    rw [stored?_succ, h]

/-! ## Changes of the channels -/

/-- The archive with the channel at a place changed. -/
def modified (a : Archive) (i : Nat) (f : StoredChannel → StoredChannel) : Archive :=
  { a with channels := a.channels.modify i f }

theorem getElem?_modified (f : StoredChannel → StoredChannel) (j : Nat) :
    (a.modified i f).channels[j]? = a.channels[j]?.map fun c => if i = j then f c else c :=
  List.getElem?_modify f i a.channels j

theorem getElem?_modified_self (hc : a.channels[i]? = some c) (f : StoredChannel → StoredChannel) :
    (a.modified i f).channels[i]? = some (f c) := by
  rw [getElem?_modified, hc, Option.map_some, if_pos rfl]

/-- A change that leaves a channel its address leaves all addresses where they are. -/
theorem addresses_modified {f : StoredChannel → StoredChannel}
    (hf : ∀ c, a.channels[i]? = some c → (f c).channel.address = c.channel.address) :
    (a.modified i f).addresses = a.addresses := by
  refine List.ext_getElem? fun j => ?_
  unfold addresses
  rw [List.getElem?_map, List.getElem?_map, getElem?_modified, Option.map_map]
  cases hj : a.channels[j]? with
  | none => rfl
  | some c =>
    simp only [Option.map_some, Function.comp_apply]
    split
    · next hij =>
      rw [hf c (hij ▸ hj)]
    · rfl

theorem addresses_modified_of_eq {f : StoredChannel → StoredChannel}
    (hc : a.channels[i]? = some c) (hf : (f c).channel.address = c.channel.address) :
    (a.modified i f).addresses = a.addresses := by
  refine addresses_modified fun d hd => ?_
  rw [hc] at hd
  cases hd
  exact hf

theorem place?_modified_of_eq {f : StoredChannel → StoredChannel}
    (hc : a.channels[i]? = some c) (hf : (f c).channel.address = c.channel.address)
    (address : Address) : (a.modified i f).place? address = a.place? address := by
  rw [place?_eq_findIdx?, addresses_modified_of_eq hc hf, ← place?_eq_findIdx?]

/-- A change at a place is seen under its id, and under no other. -/
theorem stored?_modified (f : StoredChannel → StoredChannel) (sid : Int) :
    (a.modified i f).stored? sid =
      if sid = (i + 1 : Nat) then (a.stored? sid).map f else a.stored? sid := by
  -- Numbers below one are no ids, before the change or after it.
  rcases lt_one_or_succ sid with hlt | ⟨j, rfl⟩
  · rw [stored?_of_lt hlt, stored?_of_lt hlt, Option.map_none, ite_self]
  · rw [stored?_succ, stored?_succ, getElem?_modified]
    by_cases hij : i = j
    · simp [hij]
    · have hne : ¬ ((j + 1 : Nat) : Int) = (i + 1 : Nat) := by omega
      rw [if_neg hne]
      simp [hij]

/-- The archive with one more channel at the end. -/
def extended (a : Archive) (c : StoredChannel) : Archive :=
  { a with channels := a.channels ++ [c] }

theorem addresses_extended (a : Archive) (c : StoredChannel) :
    (a.extended c).addresses = a.addresses ++ [c.channel.address] := by
  rw [addresses, extended, List.map_append]
  rfl

/-- The new channel has the id behind the last one. -/
theorem stored?_extended (sid : Int) :
    (a.extended c).stored? sid =
      if sid = (a.channels.length + 1 : Nat) then some c else a.stored? sid := by
  rcases lt_one_or_succ sid with hlt | ⟨j, rfl⟩
  · rw [stored?_of_lt hlt, stored?_of_lt hlt, if_neg (by omega)]
  · rw [stored?_succ, stored?_succ, extended, List.getElem?_append]
    -- Among the old channels, at the new one, or behind it.
    rcases Nat.lt_trichotomy j a.channels.length with hbefore | rfl | hafter
    · rw [if_pos hbefore, if_neg (by omega)]
    · rw [if_neg (Nat.lt_irrefl _), if_pos rfl, Nat.sub_self]
      rfl
    · rw [if_neg (by omega), if_neg (by omega), List.getElem?_eq_none (by simp; omega),
        List.getElem?_eq_none (by omega)]

-- The new channel is found behind all others, so its address must not have had a place before.
theorem place?_extended (h : a.place? c.channel.address = none) (address : Address) :
    (a.extended c).place? address =
      if address = c.channel.address then some a.channels.length else a.place? address := by
  have happend : (a.extended c).place? address = (a.place? address).or
      (if c.channel.address = address then some a.channels.length else none) := by
    unfold place? extended
    rw [List.findIdx?_append]
    by_cases heq : c.channel.address = address
    · simp [heq]
    · simp [heq]
  rw [happend]
  by_cases heq : address = c.channel.address
  · rw [if_pos heq, if_pos heq.symm, heq, h, Option.none_or]
  · rw [if_neg heq, if_neg (Ne.symm heq), Option.or_none]

/-- **What registering a channel does.** A known address keeps its place, and the description there
is replaced; a new one comes to the end. -/
theorem addChannel_cases (a : Archive) (channel : Channel) :
    (∃ i c, a.place? channel.address.normalized = some i ∧ a.channels[i]? = some c ∧
      c.channel.address = channel.address.normalized ∧
      a.addChannel channel =
        (a.modified i (StoredChannel.described channel.normalized), i + 1)) ∨
    (a.place? channel.address.normalized = none ∧
      a.addChannel channel = (a.extended { channel := channel.normalized },
        a.channels.length + 1)) := by
  -- By whether the address has a place, which is what registering asks first.
  cases hplace : a.place? channel.address.normalized with
  | some i =>
    obtain ⟨c, hc, haddress⟩ := getElem?_of_place? hplace
    refine .inl ⟨i, c, rfl, hc, haddress, ?_⟩
    simp only [addChannel, hplace]
    rfl
  | none =>
    refine .inr ⟨rfl, ?_⟩
    simp only [addChannel, hplace]
    rfl

/-- **What storing a segment does.** -/
theorem store_cases (a : Archive) (sid : Int) (segment : Segment Time) :
    (∃ i c, a.channels[i]? = some c ∧ sid = (i + 1 : Nat) ∧
      a.store sid segment =
        .ok (a.modified i (StoredChannel.given segment))) ∨
    (a.stored? sid = none ∧ a.store sid segment = .error (.unknownSid sid)) := by
  cases hstored : a.stored? sid with
  | some c =>
    obtain ⟨i, rfl, hc⟩ := stored?_eq_some_iff.mp hstored
    refine .inl ⟨i, c, hc, rfl, ?_⟩
    rw [store, hstored, Int.toNat_natCast, Nat.add_sub_cancel]
    rfl
  | none =>
    refine .inr ⟨rfl, ?_⟩
    rw [store, hstored]
    rfl

/-! ## Ids -/

/-- The id of the channel at a place. -/
def sidAt (i : Nat) : Int32 := Int32.ofNat (i + 1)

/-- The number of channels for which the next id is still a 32-bit number. -/
def sidLimit : Nat := Int32.maxValue.toInt.toNat

theorem lt_sidLimit_of_getElem? (hc : a.channels[i]? = some c)
    (hfew : a.channels.length < sidLimit) : i < sidLimit :=
  Nat.lt_trans (List.getElem?_eq_some_iff.mp hc).1 hfew

/-- Below the limit ids are not wrapped around. -/
theorem toInt_sidAt (h : i < sidLimit) : (sidAt i).toInt = (i + 1 : Nat) := by
  apply Int32.toInt_ofNat_of_lt
  have hlimit : sidLimit = 2147483647 := by decide
  omega

theorem eq_sidAt_iff (h : i < sidLimit) (sid : Int32) :
    sid = sidAt i ↔ sid.toInt = (i + 1 : Nat) := by
  rw [← toInt_sidAt h, Int32.toInt_inj]

/-- So no two channels have the same id. -/
theorem sidAt_inj {j : Nat} (hi : i < sidLimit) (hj : j < sidLimit) :
    sidAt i = sidAt j ↔ i = j := by
  rw [eq_sidAt_iff hj, toInt_sidAt hi]
  omega

/-! ## Order -/

/-- The segments of a log that were stored under an id. -/
def segmentsOf (sid : Int32) (log : List (Int32 × Segment Time)) : List (Segment Time) :=
  (log.filter fun entry => entry.1 = sid).map (·.2)

/-- **What holds of an archive** that was given the segments of a log: every address is there once,
normalized, and the channels have just the segments stored under their ids, in order. -/
structure Orderly (a : Archive) (log : List (Int32 × Segment Time)) : Prop where
  distinct : a.addresses.Nodup
  normalized : ∀ address ∈ a.addresses, address.normalized = address
  sorted : ∀ (i : Nat) (c : StoredChannel), a.channels[i]? = some c → c.recording.Sorted
  kept : ∀ (i : Nat) (c : StoredChannel), a.channels[i]? = some c →
    c.recording.Perm (segmentsOf (sidAt i) log)
  known : ∀ entry ∈ log, ∃ i < a.channels.length, entry.1 = sidAt i

theorem orderly_empty : Orderly {} [] where
  distinct := List.Pairwise.nil
  normalized := nofun
  sorted := nofun
  kept := nofun
  known := nofun

namespace Orderly

variable {log : List (Int32 × Segment Time)}

/-- **Another description** leaves recordings as they are. -/
theorem describe (h : a.Orderly log) (hc : a.channels[i]? = some c) {channel : Channel}
    (haddress : channel.address = c.channel.address) :
    (a.modified i (StoredChannel.described channel)).Orderly log := by
  have haddresses : (a.modified i (StoredChannel.described channel)).addresses =
      a.addresses := addresses_modified_of_eq hc haddress
  have hrecording (j : Nat) (d : StoredChannel)
      (hd : (a.modified i (StoredChannel.described channel)).channels[j]? = some d) :
      ∃ d', a.channels[j]? = some d' ∧ d.recording = d'.recording := by
    rw [getElem?_modified] at hd
    obtain ⟨d', hd', rfl⟩ := Option.map_eq_some_iff.mp hd
    refine ⟨d', hd', ?_⟩
    split
    · rfl
    · rfl
  refine ⟨haddresses ▸ h.distinct, haddresses ▸ h.normalized, fun j d hd => ?_, fun j d hd => ?_,
    fun entry hentry => ?_⟩
  · obtain ⟨d', hd', heq⟩ := hrecording j d hd
    exact heq ▸ h.sorted j d' hd'
  · obtain ⟨d', hd', heq⟩ := hrecording j d hd
    exact heq ▸ h.kept j d' hd'
  · obtain ⟨j, hj, heq⟩ := h.known entry hentry
    refine ⟨j, ?_, heq⟩
    rw [modified, List.length_modify]
    exact hj

/-- **One more channel** starts without segments. -/
theorem extend (h : a.Orderly log) {channel : Channel} (hnew : channel.address ∉ a.addresses)
    (hnormalized : channel.address.normalized = channel.address)
    (hfew : a.channels.length < sidLimit) : (a.extended { channel := channel }).Orderly log := by
  have haddresses := addresses_extended a { channel := channel }
  -- The new channel has no segments, and none was stored under its id, which was not given out.
  have hnone : segmentsOf (sidAt a.channels.length) log = [] := by
    rw [segmentsOf, List.map_eq_nil_iff, List.filter_eq_nil_iff]
    intro entry hentry heq
    obtain ⟨i, hi, hsid⟩ := h.known entry hentry
    rw [hsid, decide_eq_true_iff, sidAt_inj (Nat.lt_trans hi hfew) hfew] at heq
    omega
  -- The channels are the old ones, and one whose recording is empty.
  have hchannels (j : Nat) (d : StoredChannel)
      (hd : (a.extended { channel := channel }).channels[j]? = some d) :
      a.channels[j]? = some d ∨ j = a.channels.length ∧ d.recording = [] := by
    rw [extended, List.getElem?_append] at hd
    split at hd
    · exact .inl hd
    · rw [List.getElem?_singleton] at hd
      split at hd
      · cases hd
        exact .inr ⟨by omega, rfl⟩
      · cases hd
  refine ⟨?_, ?_, fun j d hd => ?_, fun j d hd => ?_, fun entry hentry => ?_⟩
  · rw [haddresses, List.nodup_append]
    refine ⟨h.distinct, List.pairwise_singleton _ _, fun x hx y hy heq => ?_⟩
    rw [List.mem_singleton.mp hy] at heq
    exact hnew (heq ▸ hx)
  · rw [haddresses, List.forall_mem_append]
    exact ⟨h.normalized, List.forall_mem_singleton.mpr hnormalized⟩
  · rcases hchannels j d hd with hold | ⟨_, hrecording⟩
    · exact h.sorted j d hold
    · rw [hrecording]
      exact List.Pairwise.nil
  · rcases hchannels j d hd with hold | ⟨rfl, hrecording⟩
    · exact h.kept j d hold
    · rw [hrecording, hnone]
  · obtain ⟨j, hj, heq⟩ := h.known entry hentry
    refine ⟨j, ?_, heq⟩
    rw [extended, List.length_append]
    omega

/-- **One more segment** goes to the channel whose id the log gives it. -/
theorem insert (h : a.Orderly log) (hc : a.channels[i]? = some c) (segment : Segment Time)
    (hfew : a.channels.length < sidLimit) :
    (a.modified i (StoredChannel.given segment)).Orderly
      (log ++ [(sidAt i, segment)]) := by
  have hi : i < a.channels.length := (List.getElem?_eq_some_iff.mp hc).1
  have haddresses : (a.modified i (StoredChannel.given segment)).addresses = a.addresses :=
    addresses_modified fun _ _ => rfl
  -- The new entry of the log is for the one channel that gets the segment.
  have hlog (j : Nat) (hj : j < a.channels.length) :
      segmentsOf (sidAt j) (log ++ [(sidAt i, segment)]) =
        segmentsOf (sidAt j) log ++ if i = j then [segment] else [] := by
    have hsame := sidAt_inj (Nat.lt_trans hi hfew) (Nat.lt_trans hj hfew)
    unfold segmentsOf
    rw [List.filter_append, List.map_append]
    by_cases hij : i = j
    · simp [hij]
    · simp [hij, hsame]
  refine ⟨?_, ?_, fun j d hd => ?_, fun j d hd => ?_, fun entry hentry => ?_⟩
  · exact haddresses ▸ h.distinct
  · exact haddresses ▸ h.normalized
  · rw [getElem?_modified] at hd
    obtain ⟨d', hd', rfl⟩ := Option.map_eq_some_iff.mp hd
    -- At the place of the segment one is sorted in; the other recordings stay.
    split
    · exact Recording.sorted_insert (h.sorted j d' hd')
    · exact h.sorted j d' hd'
  · rw [getElem?_modified] at hd
    obtain ⟨d', hd', rfl⟩ := Option.map_eq_some_iff.mp hd
    have hkept := h.kept j d' hd'
    rw [hlog j (List.getElem?_eq_some_iff.mp hd').1]
    split
    · refine (Recording.perm_insert segment d'.recording).trans ?_
      exact (hkept.cons segment).trans (List.perm_append_singleton segment _).symm
    · rw [List.append_nil]
      exact hkept
  · rw [modified, List.length_modify]
    rcases List.mem_append.mp hentry with hold | hnew
    · exact h.known entry hold
    · exact ⟨i, hi, congrArg Prod.fst (List.mem_singleton.mp hnew)⟩

end Orderly

end Archive

end Seismic
