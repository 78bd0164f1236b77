import Mathlib.Data.Finset.Card
import Mathlib.Data.Finset.Dedup
import Seismic.Proofs.Consistency
import Seismic.Proofs.Merging

/-!
# Loading — what a snapshot does to a register

A snapshot is taken one entry after the other, and every entry could fail. None of them does: a
channel that has been registered can take segments. What is left behind then follows from the
snapshot as a whole.

* **`Register.coherent_run`**: every id that an address has is held, after every run;
* **`Register.insertAll_ok`**: so all entries of a snapshot go in;
* **`Register.sidOf?_insertAll`**: an address that is new gets its id by its first entry;
* **`Register.find?_load`**: what is held for it is merged from all its entries;
* **`Register.load_all_or_nothing`**: a text is refused, or all of its snapshot is taken.
-/

namespace Seismic

open Archive (sidLimit)

/-! ## Registers in which every id is held -/

namespace Register

variable {r : Register}

/-- Every id that an address has is held, and the tables are in order. -/
structure Coherent (r : Register) : Prop where
  sorted : r.channels.Sorted
  instruments : r.instruments.Sorted
  held : ∀ (address : Address) (sid : Int32), r.sidOf? address = some sid →
    (r.channels.find? sid).isSome

theorem coherent_empty : Coherent {} where
  sorted := Table.sorted_empty
  instruments := Table.sorted_empty
  held := nofun

theorem isSome_find?_withHeld (h : r.channels.Sorted) (sid : Int32) (held : Holding) (k : Int32) :
    ((r.withHeld sid held).channels.find? k).isSome ↔ k = sid ∨ (r.channels.find? k).isSome := by
  rw [withHeld, Table.find?_insert h]
  split
  · next heq => simp [heq]
  · next hne => simp [hne]

namespace Coherent

theorem addInstrument (h : r.Coherent) (instrument : Instrument) :
    (r.addInstrument instrument).Coherent :=
  { h with instruments := Table.sorted_insert h.instruments instrument }

theorem withHeld (h : r.Coherent) (sid : Int32) (held : Holding) :
    (r.withHeld sid held).Coherent where
  sorted := Table.sorted_insert h.sorted held
  instruments := h.instruments
  held := fun address k hk =>
    (isSome_find?_withHeld h.sorted sid held k).mpr (.inr (h.held address k hk))

theorem opened (h : r.Coherent) (channel : Channel) : (r.opened channel).Coherent where
  sorted := Table.sorted_insert h.sorted _
  instruments := h.instruments
  held := fun address k hk => by
    refine (isSome_find?_withHeld h.sorted r.nextSid _ k).mpr ?_
    rw [sidOf?_opened] at hk
    split at hk
    · exact .inl (Option.some.inj hk).symm
    · exact .inr (h.held address k hk)

/-- The id that a channel is registered under is held. -/
theorem insertChannel (h : r.Coherent) (given : Registered) :
    (r.insertChannel given).1.Coherent ∧
      ((r.insertChannel given).1.channels.find? (r.insertChannel given).2).isSome := by
  have hcoherent : (r.insertChannel given).1.Coherent := by
    rcases r.insertChannel_cases given with
      ⟨sid, held, -, hresult⟩ | ⟨sid, -, hresult⟩ | ⟨-, hresult⟩
    · rw [hresult]
      exact h.withHeld sid held
    · rw [hresult]
      exact h
    · rw [hresult]
      exact h.opened _
  exact ⟨hcoherent, hcoherent.held _ _ (r.sidOf?_insertChannel given)⟩

theorem putWave (h : r.Coherent) (sid : Int32) (segment : Segment Time) :
    (r.putWave sid segment).2.Coherent := by
  cases hheld : r.channels.find? sid with
  | none =>
    rw [putWave_of_unknown hheld]
    exact h
  | some held =>
    rw [putWave_of_held hheld]
    exact h.withHeld sid _

end Coherent

/-- Steps that never fail under an invariant that they keep are all taken. -/
theorem each_of_step {α : Type} {step : Register → α → Except ArchiveError Unit × Register}
    {P : Register → Prop}
    (hstep : ∀ (r : Register) (x : α), P r → (step r x).1 = .ok () ∧ P (step r x).2)
    (xs : List α) {r : Register} (h : P r) :
    (each step xs r).1 = .ok () ∧ P (each step xs r).2 := by
  induction xs generalizing r with
  | nil => exact ⟨rfl, h⟩
  | cons x rest ih =>
    obtain ⟨hok, hnext⟩ := hstep r x h
    rw [each_cons_of_ok hok]
    exact ih hnext

/-- What storing segments leaves as it is. -/
structure SameNames (r r' : Register) : Prop where
  ids : r'.ids = r.ids
  nextSid : r'.nextSid = r.nextSid
  instruments : r'.instruments = r.instruments

theorem SameNames.trans {r' r'' : Register} (h : r.SameNames r') (h' : r'.SameNames r'') :
    r.SameNames r'' :=
  ⟨h'.ids.trans h.ids, h'.nextSid.trans h.nextSid, h'.instruments.trans h.instruments⟩

theorem SameNames.sidOf?_eq {r' : Register} (h : r.SameNames r') (address : Address) :
    r'.sidOf? address = r.sidOf? address := by
  rw [sidOf?, h.ids, ← sidOf?]

theorem putWaves_ok (h : r.Coherent) {sid : Int32} (hheld : (r.channels.find? sid).isSome)
    (segments : List (Segment Time)) :
    (r.putWaves sid segments).1 = .ok () ∧ (r.putWaves sid segments).2.Coherent ∧
      r.SameNames (r.putWaves sid segments).2 := by
  have hstep : ∀ (r' : Register) (segment : Segment Time),
      (r'.channels.find? sid).isSome ∧ r'.Coherent ∧ r.SameNames r' →
        (r'.putWave sid segment).1 = .ok () ∧
          ((r'.putWave sid segment).2.channels.find? sid).isSome ∧
            (r'.putWave sid segment).2.Coherent ∧ r.SameNames (r'.putWave sid segment).2 := by
    -- Storing under a held id does not fail, and leaves the id held for the segments to come.
    rintro r' segment ⟨hsome, hcoherent, hsame⟩
    obtain ⟨held, hheld⟩ := Option.isSome_iff_exists.mp hsome
    have hput := hcoherent.putWave sid segment
    rw [putWave_of_held hheld] at hput ⊢
    exact ⟨rfl, (isSome_find?_withHeld hcoherent.sorted sid _ sid).mpr (.inl rfl), hput,
      hsame.ids, hsame.nextSid, hsame.instruments⟩
  obtain ⟨hok, -, hkept⟩ := each_of_step hstep segments ⟨hheld, h, rfl, rfl, rfl⟩
  exact ⟨hok, hkept⟩

theorem insertRecorded_ok (h : r.Coherent) (entry : Entry) :
    (r.insertRecorded entry).1 = .ok () ∧ (r.insertRecorded entry).2.Coherent ∧
      (r.insertChannel ⟨0, entry.1, none⟩).1.SameNames (r.insertRecorded entry).2 := by
  obtain ⟨hinserted, hheld⟩ := h.insertChannel ⟨0, entry.1, none⟩
  exact putWaves_ok hinserted hheld entry.2

theorem insertAll_ok (h : r.Coherent) (entries : List Entry) :
    (r.insertAll entries).1 = .ok () ∧ (r.insertAll entries).2.Coherent := by
  have hstep : ∀ (r : Register) (entry : Entry), r.Coherent →
      (r.insertRecorded entry).1 = .ok () ∧ (r.insertRecorded entry).2.Coherent := by
    intro r entry hr
    obtain ⟨hok, hcoherent, -⟩ := insertRecorded_ok hr entry
    exact ⟨hok, hcoherent⟩
  exact each_of_step hstep entries h

theorem coherent_foldl_addInstrument (h : r.Coherent) (instruments : List Instrument) :
    (instruments.foldl addInstrument r).Coherent := by
  induction instruments generalizing r with
  | nil => exact h
  | cons instrument rest ih => exact ih (h.addInstrument instrument)

/-- Loading a snapshot takes all of it. -/
theorem load_of_snapshot (h : r.Coherent) {text : String} {snapshot : Snapshot}
    (htext : Snapshot.ofText? text = some snapshot) :
    r.load text =
      (.ok (), ((snapshot.instruments.foldl addInstrument r).insertAll snapshot.channels).2) := by
  have hok := (insertAll_ok (coherent_foldl_addInstrument h snapshot.instruments)
    snapshot.channels).1
  unfold load
  rw [htext]
  dsimp only
  split
  · next heq => rw [heq]
  · next heq =>
    rw [heq] at hok
    cases hok

theorem load_of_none {text : String} (htext : Snapshot.ofText? text = none) (r : Register) :
    r.load text = (.error .malformed, r) := by
  rw [load, htext]

theorem coherent_perform (h : r.Coherent) (change : Change) : (r.perform change).2.Coherent := by
  cases change with
  | addInstrument instrument => exact h.addInstrument instrument
  | addChannel address => exact (h.insertChannel ⟨0, { address }, none⟩).1
  | insertChannel given => exact (h.insertChannel given).1
  | putWave sid segment => exact h.putWave sid segment
  | load text =>
    show (r.load text).2.Coherent
    cases htext : Snapshot.ofText? text with
    | none =>
      rw [load_of_none htext]
      exact h
    | some snapshot =>
      rw [load_of_snapshot h htext]
      exact (insertAll_ok (coherent_foldl_addInstrument h snapshot.instruments) _).2

/-- **Every id that an address has is held**, after every run. -/
theorem coherent_run (h : r.Coherent) (changes : List Change) : (r.run changes).2.Coherent := by
  induction changes generalizing r with
  | nil => exact h
  | cons change rest ih => exact ih (coherent_perform h change)

/-! ## Ids by first occurrence -/

/-- The addresses of a list that have no id, each counted once. -/
def newAmong (r : Register) (addresses : List Address) : Finset Address :=
  (addresses.filter fun address => r.sidOf? address = none).toFinset

theorem mem_newAmong {addresses : List Address} {address : Address} :
    address ∈ r.newAmong addresses ↔ address ∈ addresses ∧ r.sidOf? address = none := by
  rw [newAmong, List.mem_toFinset, List.mem_filter, decide_eq_true_iff]

/-- The id of an address once a list of addresses has been registered: what it is already, or else
what the new addresses before the first occurrence leave. -/
def sidAfter? (r : Register) (addresses : List Address) (address : Address) : Option Int32 :=
  (r.sidOf? address).or <|
    if address ∈ addresses then
      some (r.nextSid + Int32.ofNat (r.newAmong (addresses.takeWhile (· ≠ address))).card)
    else none

theorem insertChannel_names (r : Register) (given : Registered) :
    (∃ sid, r.sidOf? given.channel.address.normalized = some sid ∧
      r.SameNames (r.insertChannel given).1) ∨
    (r.sidOf? given.channel.address.normalized = none ∧
      (r.opened given.channel.normalized).SameNames (r.insertChannel given).1) := by
  rcases r.insertChannel_cases given with
    ⟨sid, held, hsid, hresult⟩ | ⟨sid, hsid, hresult⟩ | ⟨hnew, hresult⟩
  · rw [hresult]
    exact .inl ⟨sid, hsid, rfl, rfl, rfl⟩
  · rw [hresult]
    exact .inl ⟨sid, hsid, rfl, rfl, rfl⟩
  · rw [hresult]
    exact .inr ⟨hnew, rfl, rfl, rfl⟩

/-- What an entry does to the names: those of a known address stay, and a new address is named. -/
theorem insertRecorded_names (h : r.Coherent) (entry : Entry) :
    (∃ sid, r.sidOf? entry.1.address.normalized = some sid ∧
      r.SameNames (r.insertRecorded entry).2) ∨
    (r.sidOf? entry.1.address.normalized = none ∧
      (r.opened entry.1.normalized).SameNames (r.insertRecorded entry).2) := by
  obtain ⟨-, -, hsame⟩ := insertRecorded_ok h entry
  rcases r.insertChannel_names ⟨0, entry.1, none⟩ with ⟨sid, hsid, hinserted⟩ | ⟨hnew, hinserted⟩
  · exact .inl ⟨sid, hsid, hinserted.trans hsame⟩
  · exact .inr ⟨hnew, hinserted.trans hsame⟩

section Names

variable (h : r.Coherent) (entry : Entry)

include h

theorem sidOf?_insertRecorded (address : Address) :
    (r.insertRecorded entry).2.sidOf? address =
      (r.sidOf? address).or
        (if address = entry.1.address.normalized then some r.nextSid else none) := by
  rcases insertRecorded_names h entry with ⟨sid, hsid, hsame⟩ | ⟨hnew, hsame⟩
  · rw [hsame.sidOf?_eq]
    by_cases heq : address = entry.1.address.normalized
    · rw [heq, hsid, Option.some_or]
    · rw [if_neg heq, Option.or_none]
  · rw [hsame.sidOf?_eq, sidOf?_opened, Channel.address_normalized]
    by_cases heq : address = entry.1.address.normalized
    · rw [heq, hnew, if_pos rfl, Option.none_or]
    · rw [if_neg heq, if_neg heq, Option.or_none]

theorem nextSid_insertRecorded :
    (r.insertRecorded entry).2.nextSid =
      if r.sidOf? entry.1.address.normalized = none then r.nextSid + 1 else r.nextSid := by
  rcases insertRecorded_names h entry with ⟨sid, hsid, hsame⟩ | ⟨hnew, hsame⟩
  · rw [hsame.nextSid, hsid, if_neg nofun]
  · rw [hsame.nextSid, if_pos hnew]
    rfl

theorem instruments_insertRecorded :
    (r.insertRecorded entry).2.instruments = r.instruments := by
  rcases insertRecorded_names h entry with ⟨sid, hsid, hsame⟩ | ⟨hnew, hsame⟩
  · exact hsame.instruments
  · exact hsame.instruments

/-- The address of an entry is new no more. -/
theorem newAmong_insertRecorded (rest : List Address) :
    (r.insertRecorded entry).2.newAmong rest =
      (r.newAmong (entry.1.address.normalized :: rest)).erase entry.1.address.normalized := by
  ext address
  rw [Finset.mem_erase, mem_newAmong, mem_newAmong, sidOf?_insertRecorded h, Option.or_eq_none_iff,
    List.mem_cons]
  by_cases heq : address = entry.1.address.normalized
  · simp [heq]
  · simp [heq]

/-- The next id and the new addresses that are still to come keep up with each other. -/
theorem nextSid_add_card (rest : List Address) :
    (r.insertRecorded entry).2.nextSid +
        Int32.ofNat ((r.insertRecorded entry).2.newAmong rest).card =
      r.nextSid + Int32.ofNat (r.newAmong (entry.1.address.normalized :: rest)).card := by
  rw [newAmong_insertRecorded h, nextSid_insertRecorded h]
  -- A new address raises the next id by one, and is then missing among the new ones.
  by_cases hnew : r.sidOf? entry.1.address.normalized = none
  · have hmem := mem_newAmong.mpr ⟨List.mem_cons_self (l := rest), hnew⟩
    rw [if_pos hnew, ← Finset.card_erase_add_one hmem, Int32.ofNat_add, Int32.add_assoc,
      Int32.add_comm 1]
    rfl
  · have hmem : entry.1.address.normalized ∉ r.newAmong (entry.1.address.normalized :: rest) :=
      fun hmem => hnew (mem_newAmong.mp hmem).2
    rw [if_neg hnew, Finset.erase_eq_of_notMem hmem]

theorem sidAfter?_insertRecorded (rest : List Address) (address : Address) :
    (r.insertRecorded entry).2.sidAfter? rest address =
      r.sidAfter? (entry.1.address.normalized :: rest) address := by
  unfold sidAfter?
  rw [sidOf?_insertRecorded h]
  by_cases heq : address = entry.1.address.normalized
  · -- Nothing comes before the first entry, so its address gets the next id as it is.
    have hfirst : (entry.1.address.normalized :: rest).takeWhile
        (· ≠ entry.1.address.normalized) = [] := by simp
    have hzero : r.nextSid + Int32.ofNat (r.newAmong []).card = r.nextSid := Int32.add_zero _
    rw [heq, if_pos rfl, if_pos List.mem_cons_self, hfirst, hzero]
    cases r.sidOf? entry.1.address.normalized with
    | none => rfl
    | some sid => rfl
  · -- For any other, the first address is one of those before it, which the register now counts.
    have hbehind : (entry.1.address.normalized :: rest).takeWhile (· ≠ address) =
        entry.1.address.normalized :: rest.takeWhile (· ≠ address) :=
      List.takeWhile_cons_of_pos (decide_eq_true (Ne.symm heq))
    rw [if_neg heq, Option.or_none]
    simp only [hbehind, nextSid_add_card h, List.mem_cons, heq, false_or]

end Names

/-- The addresses of entries, in their order. -/
def addressesOf (entries : List Entry) : List Address :=
  entries.map fun entry => entry.1.address.normalized

-- By induction on the entries: each of them moves its address from the list into the register.
theorem insertAll_of_step {β : Type} (view : Register → List Address → β)
    (hstep : ∀ (r : Register) (entry : Entry) (rest : List Address), r.Coherent →
      view (r.insertRecorded entry).2 rest = view r (entry.1.address.normalized :: rest))
    (h : r.Coherent) (entries : List Entry) :
    view (r.insertAll entries).2 [] = view r (addressesOf entries) := by
  unfold insertAll addressesOf
  induction entries generalizing r with
  | nil => rfl
  | cons entry rest ih =>
    obtain ⟨hok, hcoherent, -⟩ := insertRecorded_ok h entry
    rw [each_cons_of_ok hok, ih hcoherent, hstep r entry _ h, List.map_cons]

/-- **Ids by first occurrence.** -/
theorem sidOf?_insertAll (h : r.Coherent) (entries : List Entry) (address : Address) :
    (r.insertAll entries).2.sidOf? address = r.sidAfter? (addressesOf entries) address := by
  rw [← insertAll_of_step (fun r addresses => r.sidAfter? addresses address)
    (fun r entry rest h => sidAfter?_insertRecorded h entry rest address) h entries]
  exact Option.or_none.symm

theorem nextSid_insertAll (h : r.Coherent) (entries : List Entry) :
    (r.insertAll entries).2.nextSid =
      r.nextSid + Int32.ofNat (r.newAmong (addressesOf entries)).card := by
  rw [← insertAll_of_step (fun r addresses => r.nextSid + Int32.ofNat (r.newAmong addresses).card)
    (fun r entry rest h => nextSid_add_card h entry rest) h entries]
  exact (Int32.add_zero _).symm

theorem instruments_insertAll (h : r.Coherent) (entries : List Entry) :
    (r.insertAll entries).2.instruments = r.instruments :=
  insertAll_of_step (fun r _ => r.instruments)
    (fun _ entry _ h => instruments_insertRecorded h entry) h entries

/-! ## Instruments -/

/-- The last instrument with a name counts. -/
theorem find?_foldl_addInstrument (h : r.instruments.Sorted) (instruments : List Instrument)
    (name : String) :
    (instruments.foldl addInstrument r).instruments.find? name =
      (instruments.filter fun i => i.name = name).getLast?.or (r.instruments.find? name) := by
  rw [foldl_addInstrument_eq]
  refine (Table.find?_foldl_insert _ h name).trans ?_
  rw [List.filter_map, List.getLast?_map, Option.map_map]
  exact congrArg (Option.or · _) (congrFun Option.map_id _)

/-! ## Holdings -/

/-- What is held under the id of an address. -/
def at? (r : Register) (address : Address) : Option Holding :=
  (r.sidOf? address).bind fun sid => r.channels.find? sid

section Held

variable {a : Archive} {log : List (Int32 × Segment Time)}

/-- A register holds under an id what the archive has stored under the id's address. -/
theorem Tracks.find?_eq (h : r.Tracks a log) (hfew : a.channels.length < sidLimit)
    {address : Address} {sid : Int32} (hsid : r.sidOf? address = some sid) :
    r.channels.find? sid = (a.at? address).map (·.holding sid) := by
  rw [h.represents.ids] at hsid
  obtain ⟨i, hplace, rfl⟩ := Option.map_eq_some_iff.mp hsid
  obtain ⟨c, hc, -⟩ := Archive.getElem?_of_place? hplace
  have hi : i < sidLimit := Archive.lt_sidLimit_of_getElem? hc hfew
  rw [h.represents.find?_sidAt hi hc, Archive.at?_of_place? hplace, hc, Option.map_some]

theorem Tracks.at?_eq (h : r.Tracks a log) (hfew : a.channels.length < sidLimit)
    {address : Address} {sid : Int32} (hsid : ∀ k, r.sidOf? address = some k → k = sid) :
    r.at? address = (a.at? address).map (·.holding sid) := by
  unfold at?
  cases hknown : r.sidOf? address with
  | some k =>
    obtain rfl := hsid k hknown
    exact h.find?_eq hfew hknown
  | none =>
    rw [h.represents.ids, Option.map_eq_none_iff] at hknown
    rw [Archive.at?_of_new hknown]
    rfl

/-- **What is held for an address after loading** is merged from its entries and what was held
before. -/
theorem find?_load (h : r.Tracks a log) {text : String} {snapshot : Snapshot}
    (htext : Snapshot.ofText? text = some snapshot) (hfew : (r.load text).2.ids.length < sidLimit)
    {address : Address} {sid : Int32} (hsid : (r.load text).2.sidOf? address = some sid) :
    (r.load text).2.channels.find? sid =
      Holding.merged? sid (r.at? address) (entriesOf address snapshot.channels) := by
  obtain ⟨-, hloaded⟩ := tracks_load h htext hfew
  -- The bound is on the loaded register. Since the one before it is no larger, ids stand for places
  -- in both.
  have hbefore := Nat.lt_of_le_of_lt (r.grows_load text).count hfew
  rw [h.represents.length_ids] at hbefore
  rw [hloaded.represents.length_ids] at hfew
  have hsame : ∀ k, r.sidOf? address = some k → k = sid := by
    intro k hk
    have hkept := (r.grows_load text).sids address k hk
    rw [hsid] at hkept
    exact (Option.some.inj hkept).symm
  have hsorted : ∀ c, a.at? address = some c → c.recording.Sorted := by
    intro c hc
    obtain ⟨i, -, hi⟩ := Option.bind_eq_some_iff.mp hc
    exact h.orderly.sorted i c hi
  rw [hloaded.find?_eq hfew hsid, Archive.at?_load, StoredChannel.merged?_holding hsorted,
    h.at?_eq hbefore hsame]

end Held

/-! ## Loading -/

/-- Registers a channel with any id and span given for it, and stores its segments. -/
def insertGiven (r : Register) (entry : Registered × List (Segment Time)) :
    Except ArchiveError Unit × Register :=
  let (r, sid) := r.insertChannel entry.1
  r.putWaves sid entry.2

theorem each_insertGiven (r : Register) (given : List (Registered × List (Segment Time))) :
    each insertGiven given r =
      r.insertAll (given.map fun entry => (entry.1.channel, entry.2)) := by
  unfold insertAll
  induction given generalizing r with
  | nil => rfl
  | cons entry rest ih =>
    have hstep : r.insertGiven entry = r.insertRecorded (entry.1.channel, entry.2) := rfl
    obtain ⟨result, r', hresult⟩ : ∃ result r',
        r.insertRecorded (entry.1.channel, entry.2) = (result, r') := ⟨_, _, rfl⟩
    cases result with
    | ok done => simp only [List.map_cons, each, hstep, hresult, ih r']
    | error e => simp only [List.map_cons, each, hstep, hresult]

/-- **What loading a snapshot leaves behind.** -/
structure Takes (r : Register) (snapshot : Snapshot) (r' : Register) : Prop where
  /-- A known address keeps its id. A new one gets the next id plus the number of new addresses
  before its first entry. Others have none. -/
  sids : ∀ address, r'.sidOf? address = r.sidAfter? (addressesOf snapshot.channels) address
  next : r'.nextSid = r.nextSid + Int32.ofNat (r.newAmong (addressesOf snapshot.channels)).card
  instruments : ∀ name, r'.instruments.find? name =
    (snapshot.instruments.filter fun i => i.name = name).getLast?.or (r.instruments.find? name)
  /-- As long as there are ids, the segments of all entries with an address join those that were held
  for it, under the description of the last. -/
  held : r'.ids.length < sidLimit → ∀ address sid, r'.sidOf? address = some sid →
    r'.channels.find? sid =
      Holding.merged? sid (r.at? address) (entriesOf address snapshot.channels)
  /-- Whatever ids and spans come with the entries, the result is the same. -/
  unread : ∀ given : List (Registered × List (Segment Time)),
    (given.map fun entry => (entry.1.channel, entry.2)) = snapshot.channels →
      each insertGiven given (snapshot.instruments.foldl addInstrument r) = (.ok (), r')

/-- Loading a text refuses it or takes all of it. -/
inductive Loaded (r : Register) (text : String) : Except LoadError Unit × Register → Prop
  | refused (htext : Snapshot.ofText? text = none) : Loaded r text (.error .malformed, r)
  | taken {snapshot : Snapshot} {r' : Register} (htext : Snapshot.ofText? text = some snapshot)
      (htakes : r.Takes snapshot r') : Loaded r text (.ok (), r')

theorem takes_load (changes : List Change) {text : String} {snapshot : Snapshot}
    (htext : Snapshot.ofText? text = some snapshot) :
    (run {} changes).2.Takes snapshot ((run {} changes).2.load text).2 := by
  have h := coherent_run coherent_empty changes
  have hadded := coherent_foldl_addInstrument h snapshot.instruments
  have hnames := foldl_addInstrument_eq (run {} changes).2 snapshot.instruments
  have hload := load_of_snapshot h htext
  refine ⟨fun address => ?_, ?_, fun name => ?_, fun hfew address sid hsid => ?_,
    fun given hgiven => ?_⟩
  · rw [hload, sidOf?_insertAll hadded, hnames]
    rfl
  · rw [hload, nextSid_insertAll hadded, hnames]
    rfl
  · rw [hload, instruments_insertAll hadded, find?_foldl_addInstrument h.instruments]
  · have hbefore := Nat.lt_of_le_of_lt ((run {} changes).2.grows_load text).count hfew
    obtain ⟨-, htracks⟩ := tracks_run ⟨represents_empty, Archive.orderly_empty⟩ changes hbefore
    exact find?_load htracks htext hfew hsid
  · rw [each_insertGiven, hgiven, hload]
    exact Prod.ext (insertAll_ok hadded snapshot.channels).1 rfl

/-- **Loading is all or nothing**, after every run and for every text: either the text is no snapshot
and nothing changes, or it is one and nothing of it fails. -/
theorem load_all_or_nothing (changes : List Change) (text : String) :
    (run {} changes).2.Loaded text ((run {} changes).2.load text) := by
  cases htext : Snapshot.ofText? text with
  | none =>
    rw [load_of_none htext]
    exact .refused htext
  | some snapshot =>
    have hok := congrArg Prod.fst (load_of_snapshot (coherent_run coherent_empty changes) htext)
    have hload : (run {} changes).2.load text = (.ok (), ((run {} changes).2.load text).2) :=
      Prod.ext hok rfl
    rw [hload]
    exact .taken htext (takes_load changes htext)

end Register

/-! ## Documents -/

/-- The text of an object with some keys and the texts of their values. -/
def Json.objectText (entries : List (String × String)) : String :=
  let texts := entries.map fun e => "\"" ++ e.1 ++ "\": " ++ e.2
  String.singleton '{' ++ ", ".intercalate texts ++ String.singleton '}'

end Seismic
