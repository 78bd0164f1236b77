import Seismic.Archive.Register
import Seismic.Proofs.Placing
import Seismic.Proofs.Tables

/-!
# Registration — a register against an archive, call by call

An archive keeps its channels in one list. A register keeps them in two maps that have to agree,
with ids, addresses and spans that are stored more than once.

* **`Register.insertChannel_cases`**: what registering a channel can do;
* **`Register.Grows`**: no call takes an id from an address;
* **`Register.Represents`**: a register and an archive hold the same;
* **`Register.Tracks`** adds the log of the segments stored so far. Registering, storing and loading
  keep it (`tracks_insertChannel`, `tracks_putWave`, `tracks_load`).
-/

namespace Seismic

open Archive (sidAt sidLimit segmentsOf Orderly)

/-- A channel of an archive as a register holds it. -/
def StoredChannel.holding (c : StoredChannel) (sid : Int32) : Holding :=
  ⟨⟨sid, c.channel, c.recording.coverage⟩, c.recording⟩

/-! ## Instruments

Archives and registers keep their instruments in the same way: in a table by name. -/

/-- A table with more instruments, each under its name. -/
def withInstruments (t : Table String Instrument) (instruments : List Instrument) :
    Table String Instrument :=
  (instruments.map fun i => (i.name, i)).foldl (fun t e => t.insert e.1 e.2) t

/-- **Adding instruments changes their table and nothing else**, whatever the table is kept in. -/
theorem foldl_insert_within {σ : Type} (table : σ → Table String Instrument)
    (put : σ → Table String Instrument → σ) (hsame : ∀ s, put s (table s) = s)
    (htable : ∀ s t, table (put s t) = t) (hput : ∀ s t t', put (put s t) t' = put s t')
    (instruments : List Instrument) (s : σ) :
    instruments.foldl (fun s i => put s ((table s).insert i.name i)) s =
      put s (withInstruments (table s) instruments) := by
  induction instruments generalizing s with
  | nil => exact (hsame s).symm
  | cons instrument rest ih =>
    rw [List.foldl_cons, ih, htable, hput]
    rfl

theorem Archive.foldl_addInstrument_eq (a : Archive) (instruments : List Instrument) :
    instruments.foldl addInstrument a =
      { a with instruments := withInstruments a.instruments instruments } :=
  foldl_insert_within (·.instruments) (fun a t => { a with instruments := t }) (fun _ => rfl)
    (fun _ _ => rfl) (fun _ _ _ => rfl) instruments a

theorem Register.foldl_addInstrument_eq (r : Register) (instruments : List Instrument) :
    instruments.foldl addInstrument r =
      { r with instruments := withInstruments r.instruments instruments } :=
  foldl_insert_within (·.instruments) (fun r t => { r with instruments := t }) (fun _ => rfl)
    (fun _ _ => rfl) (fun _ _ _ => rfl) instruments r

namespace Register

variable {r : Register} {a : Archive} {i : Nat} {c : StoredChannel}

/-! ## What calls do to a register -/

/-- The register with another holding under an id. -/
def withHeld (r : Register) (sid : Int32) (held : Holding) : Register :=
  { r with channels := r.channels.insert sid held }

/-- The register with a new channel under the next id. -/
def opened (r : Register) (channel : Channel) : Register :=
  { r with
    ids := (channel.address, r.nextSid) :: r.ids
    channels := r.channels.insert r.nextSid ⟨⟨r.nextSid, channel, none⟩, []⟩
    nextSid := r.nextSid + 1 }

/-- Only the new address gets an id by it. -/
theorem sidOf?_opened (r : Register) (channel : Channel) (address : Address) :
    (r.opened channel).sidOf? address =
      if address = channel.address then some r.nextSid else r.sidOf? address := by
  unfold sidOf? opened
  rw [List.lookup_cons]
  by_cases heq : address = channel.address
  · simp [heq]
  · rw [if_neg heq, beq_eq_false_iff_ne.mpr heq]

section Calls

variable {given : Registered} {sid : Int32} {held : Holding}

/-- A new address opens an entry under the next id. -/
theorem insertChannel_of_new (hnew : r.sidOf? given.channel.normalized.address = none) :
    r.insertChannel given = (r.opened given.channel.normalized, r.nextSid) := by
  rw [Channel.address_normalized] at hnew
  simp only [insertChannel, hnew]
  rfl

/-- A known address keeps its id, its span and its segments. -/
theorem insertChannel_of_held (hsid : r.sidOf? given.channel.normalized.address = some sid)
    (hheld : r.channels.find? sid = some held) :
    r.insertChannel given =
      (r.withHeld sid ⟨⟨sid, given.channel.normalized, held.registered.span⟩, held.waves⟩, sid) := by
  rw [Channel.address_normalized] at hsid
  simp only [insertChannel, hsid, hheld]
  rfl

/-- **What registering a channel does.** -/
theorem insertChannel_cases (r : Register) (given : Registered) :
    (∃ sid held, r.sidOf? given.channel.normalized.address = some sid ∧
      r.insertChannel given = (r.withHeld sid held, sid)) ∨
    (∃ sid, r.sidOf? given.channel.normalized.address = some sid ∧
      r.insertChannel given = (r, sid)) ∨
    (r.sidOf? given.channel.normalized.address = none ∧
      r.insertChannel given = (r.opened given.channel.normalized, r.nextSid)) := by
  cases hsid : r.sidOf? given.channel.normalized.address with
  | none => exact .inr (.inr ⟨rfl, insertChannel_of_new hsid⟩)
  | some sid =>
    cases hheld : r.channels.find? sid with
    -- An id under which nothing is held: then nothing happens.
    | none =>
      refine .inr (.inl ⟨sid, rfl, ?_⟩)
      rw [Channel.address_normalized] at hsid
      simp only [insertChannel, hsid, hheld]
    | some held => exact .inl ⟨sid, _, rfl, insertChannel_of_held hsid hheld⟩

/-- A segment is stored where something is held. -/
theorem putWave_of_held (hheld : r.channels.find? sid = some held) (segment : Segment Time) :
    r.putWave sid segment = (.ok (), r.withHeld sid (held.put segment)) := by
  unfold putWave
  rw [hheld]
  rfl

/-- Otherwise the call fails and changes nothing. -/
theorem putWave_of_unknown (hnone : r.channels.find? sid = none) (segment : Segment Time) :
    r.putWave sid segment = (.error (.unknownSid sid.toInt), r) := by
  unfold putWave
  rw [hnone]

end Calls

/-! ## Growth

An address that has an id keeps it, whatever is called. -/

/-- No address loses its id or gets another one. -/
structure Grows (r r' : Register) : Prop where
  sids : ∀ address sid, r.sidOf? address = some sid → r'.sidOf? address = some sid
  count : r.ids.length ≤ r'.ids.length

theorem Grows.refl (r : Register) : r.Grows r := ⟨fun _ _ h => h, Nat.le_refl _⟩

theorem Grows.trans {r' r'' : Register} (h : r.Grows r') (h' : r'.Grows r'') : r.Grows r'' :=
  ⟨fun address sid hsid => h'.sids address sid (h.sids address sid hsid),
    Nat.le_trans h.count h'.count⟩

theorem grows_addInstrument (r : Register) (instrument : Instrument) :
    r.Grows (r.addInstrument instrument) := ⟨fun _ _ h => h, Nat.le_refl _⟩

theorem grows_withHeld (r : Register) (sid : Int32) (held : Holding) :
    r.Grows (r.withHeld sid held) := ⟨fun _ _ h => h, Nat.le_refl _⟩

/-- A new entry takes no id away. -/
theorem grows_opened {channel : Channel} (hnew : r.sidOf? channel.address = none) :
    r.Grows (r.opened channel) where
  sids := fun address sid h => by
    -- The new entry hides no other, since its address had none.
    have hne : address ≠ channel.address := by
      rintro rfl
      rw [hnew] at h
      cases h
    rw [sidOf?_opened, if_neg hne]
    exact h
  count := Nat.le_succ _

/-- **Registering a channel takes no id away.** -/
theorem grows_insertChannel (r : Register) (given : Registered) :
    r.Grows (r.insertChannel given).1 := by
  rcases r.insertChannel_cases given with
    ⟨sid, held, -, hresult⟩ | ⟨sid, -, hresult⟩ | ⟨hnew, hresult⟩
  · rw [hresult]
    exact grows_withHeld r sid _
  · rw [hresult]
    exact Grows.refl r
  · rw [hresult]
    exact grows_opened hnew

theorem grows_putWave (r : Register) (sid : Int32) (segment : Segment Time) :
    r.Grows (r.putWave sid segment).2 := by
  cases hheld : r.channels.find? sid with
  | some held =>
    rw [putWave_of_held hheld]
    exact grows_withHeld r sid _
  | none =>
    rw [putWave_of_unknown hheld]
    exact Grows.refl r

section Each

variable {α : Type} {step : Register → α → Except ArchiveError Unit × Register}

/-- A step that succeeds is followed by the others. -/
theorem each_cons_of_ok {x : α} (h : (step r x).1 = .ok ()) (rest : List α) :
    each step (x :: rest) r = each step rest (step r x).2 := by
  have hstep : step r x = (.ok (), (step r x).2) := Prod.ext h rfl
  rw [each, hstep]

/-- Whether or not the first step fails, what follows it takes nothing from it. -/
theorem grows_each_cons (hstep : ∀ (r : Register) (x : α), r.Grows (step r x).2) (r : Register)
    (x : α) (rest : List α) : (step r x).2.Grows (each step (x :: rest) r).2 := by
  -- By induction on what follows: either the next step fails and it is over, or it succeeds and
  -- grows, and the rest does too.
  induction rest generalizing r x with
  | nil =>
    unfold each
    split
    · next heq =>
      rw [heq]
      exact Grows.refl _
    · exact Grows.refl _
  | cons y rest ih =>
    unfold each
    split
    · next r' heq =>
      rw [heq]
      exact (hstep r' y).trans (ih r' y)
    · exact Grows.refl _

/-- **So steps that grow a register grow it together**, however far they get. -/
theorem grows_each (hstep : ∀ (r : Register) (x : α), r.Grows (step r x).2) (r : Register)
    (xs : List α) : r.Grows (each step xs r).2 := by
  cases xs with
  | nil => exact Grows.refl r
  | cons x rest => exact (hstep r x).trans (grows_each_cons hstep r x rest)

end Each

theorem grows_putWaves (r : Register) (sid : Int32) (segments : List (Segment Time)) :
    r.Grows (r.putWaves sid segments).2 :=
  grows_each (fun r segment => r.grows_putWave sid segment) r segments

theorem grows_insertRecorded (r : Register) (entry : Channel × List (Segment Time)) :
    r.Grows (r.insertRecorded entry).2 :=
  (r.grows_insertChannel ⟨0, entry.1, none⟩).trans (grows_putWaves _ _ entry.2)

theorem grows_insertAll (r : Register) (entries : List (Channel × List (Segment Time))) :
    r.Grows (r.insertAll entries).2 :=
  grows_each grows_insertRecorded r entries

theorem grows_foldl_addInstrument (r : Register) (instruments : List Instrument) :
    r.Grows (instruments.foldl addInstrument r) := by
  rw [foldl_addInstrument_eq]
  exact ⟨fun _ _ h => h, Nat.le_refl _⟩

/-- **Loading takes no id away**, whether or not it fails. -/
theorem grows_load (r : Register) (text : String) : r.Grows (r.load text).2 := by
  unfold load
  cases Snapshot.ofText? text with
  | none => exact Grows.refl r
  | some snapshot =>
    have hall := (r.grows_foldl_addInstrument snapshot.instruments).trans
      (grows_insertAll _ snapshot.channels)
    -- A failure halfway keeps what has been taken so far.
    dsimp only
    split
    · next heq =>
      rw [heq] at hall
      exact hall
    · next heq =>
      rw [heq] at hall
      exact hall

/-! ## Registers and archives -/

/-- A register and an archive hold the same. -/
structure Represents (r : Register) (a : Archive) : Prop where
  next : r.nextSid = sidAt a.channels.length
  addresses : r.ids.map (·.1) = a.addresses.reverse
  ids : ∀ address, r.sidOf? address = (a.place? address).map sidAt
  held : ∀ sid : Int32, r.channels.find? sid = (a.stored? sid.toInt).map (·.holding sid)
  sorted : r.channels.Sorted
  instruments : r.instruments = a.instruments

/-- The empty register and the empty archive. -/
theorem represents_empty : Represents {} {} where
  next := by decide
  addresses := rfl
  ids := fun _ => rfl
  held := fun sid => by
    have hnone : ({} : Archive).stored? sid.toInt = none := by simp [Archive.stored?]
    rw [hnone]
    rfl
  sorted := Table.sorted_empty
  instruments := rfl

namespace Represents

/-- There are as many ids as channels. -/
theorem length_ids (h : r.Represents a) : r.ids.length = a.channels.length := by
  have hlength := congrArg List.length h.addresses
  rw [List.length_map, List.length_reverse, Archive.addresses, List.length_map] at hlength
  exact hlength

/-- **Under the id of a place the channel there is held.** -/
theorem find?_sidAt (h : r.Represents a) (hi : i < sidLimit) (hc : a.channels[i]? = some c) :
    r.channels.find? (sidAt i) = some (c.holding (sidAt i)) := by
  rw [h.held, Archive.toInt_sidAt hi, Archive.stored?_succ, hc, Option.map_some]

/-- Nothing is held under an id but the channel at the place of the id. -/
theorem exists_of_find? (h : r.Represents a) (hfew : a.channels.length < sidLimit) {sid : Int32}
    {held : Holding} (hheld : r.channels.find? sid = some held) :
    ∃ i c, i < sidLimit ∧ a.channels[i]? = some c ∧ sid = sidAt i ∧ held = c.holding (sidAt i) := by
  rw [h.held] at hheld
  obtain ⟨c, hc, rfl⟩ := Option.map_eq_some_iff.mp hheld
  obtain ⟨i, hsid, hi⟩ := Archive.stored?_eq_some_iff.mp hc
  have hlt : i < sidLimit := Archive.lt_sidLimit_of_getElem? hi hfew
  have heq : sid = sidAt i := (Archive.eq_sidAt_iff hlt sid).mpr hsid
  exact ⟨i, c, hlt, hi, heq, by rw [heq]⟩

/-- **A channel changed on both sides**, its address apart. -/
theorem modify (h : r.Represents a) (hi : i < sidLimit) (hc : a.channels[i]? = some c)
    {f : StoredChannel → StoredChannel} (hf : (f c).channel.address = c.channel.address) :
    (r.withHeld (sidAt i) ((f c).holding (sidAt i))).Represents (a.modified i f) where
  next := by
    rw [Archive.modified, List.length_modify]
    exact h.next
  addresses := by
    rw [Archive.addresses_modified_of_eq hc hf]
    exact h.addresses
  ids := fun address => by
    rw [Archive.place?_modified_of_eq hc hf]
    exact h.ids address
  held := fun sid => by
    -- Both sides change at one id only, and no other id is the one of the place.
    rw [withHeld, Table.find?_insert h.sorted, Archive.stored?_modified, h.held]
    by_cases hsid : sid = sidAt i
    · rw [if_pos hsid, if_pos ((Archive.eq_sidAt_iff hi sid).mp hsid), hsid, Archive.toInt_sidAt hi,
        Archive.stored?_succ, hc]
      rfl
    · rw [if_neg hsid, if_neg (mt (Archive.eq_sidAt_iff hi sid).mpr hsid)]
  sorted := Table.sorted_alter h.sorted
  instruments := h.instruments

/-- **A channel added on both sides.** -/
theorem extend (h : r.Represents a) {channel : Channel} (hfew : a.channels.length < sidLimit)
    (hnew : a.place? channel.address = none) :
    (r.opened channel).Represents (a.extended { channel := channel }) where
  next := by
    rw [opened, h.next, Archive.extended, List.length_append]
    exact (Int32.ofNat_add (a.channels.length + 1) 1).symm
  addresses := by
    rw [Archive.addresses_extended, List.reverse_append, ← h.addresses]
    rfl
  ids := fun address => by
    rw [sidOf?_opened, h.next, h.ids, Archive.place?_extended hnew, apply_ite (Option.map sidAt),
      Option.map_some]
  held := fun sid => by
    -- The next id is the one behind the last channel, so both sides are new in the same place. No
    -- sample has been stored there, hence no span.
    rw [opened, h.next, Table.find?_insert h.sorted, Archive.stored?_extended, h.held]
    by_cases hsid : sid = sidAt a.channels.length
    · rw [if_pos hsid, if_pos ((Archive.eq_sidAt_iff hfew sid).mp hsid), hsid, Option.map_some,
        StoredChannel.holding, Recording.coverage_nil]
    · rw [if_neg hsid, if_neg (mt (Archive.eq_sidAt_iff hfew sid).mpr hsid)]
  sorted := Table.sorted_alter h.sorted
  instruments := h.instruments

end Represents

/-! ## One call

A log lists the segments stored so far, each with the id that it was stored under. -/

/-- A register holds what an archive holds, which is what a log says was stored. -/
structure Tracks (r : Register) (a : Archive) (log : List (Int32 × Segment Time)) : Prop where
  represents : r.Represents a
  orderly : a.Orderly log

variable {log : List (Int32 × Segment Time)}

theorem tracks_addInstrument (h : r.Tracks a log) (instrument : Instrument) :
    (r.addInstrument instrument).Tracks (a.addInstrument instrument) log := by
  obtain ⟨hrepresents, horderly⟩ := h
  refine ⟨{ hrepresents with instruments := ?_ }, { horderly with }⟩
  rw [addInstrument, Archive.addInstrument, hrepresents.instruments]

/-- Registering a channel gives the id of its place, and stores nothing. -/
theorem tracks_insertChannel (h : r.Tracks a log) (given : Registered)
    (hfew : a.channels.length < sidLimit) :
    (r.insertChannel given).1.Tracks (a.addChannel given.channel).1 log ∧
      ∃ i c, (a.addChannel given.channel).1.channels[i]? = some c ∧
        (a.addChannel given.channel).2 = i + 1 ∧ (r.insertChannel given).2 = sidAt i := by
  obtain ⟨hrepresents, horderly⟩ := h
  have hsid := hrepresents.ids given.channel.normalized.address
  -- Register and archive go the same way: an address has an id exactly if it has a place, and an
  -- id that an address has is held.
  rcases a.addChannel_cases given.channel with
    ⟨i, c, hplace, hc, haddress, hadd⟩ | ⟨hplace, hadd⟩
  · have hi : i < sidLimit := Archive.lt_sidLimit_of_getElem? hc hfew
    have hheld := hrepresents.find?_sidAt hi hc
    have hknown : r.sidOf? given.channel.normalized.address = some (sidAt i) :=
      hsid.trans (congrArg (Option.map sidAt) hplace)
    have hinsert : r.insertChannel given =
        (r.withHeld (sidAt i)
          ((StoredChannel.described given.channel.normalized c).holding (sidAt i)), sidAt i) :=
      insertChannel_of_held hknown hheld
    rw [hinsert, hadd]
    refine ⟨⟨hrepresents.modify hi hc haddress.symm, horderly.describe hc haddress.symm⟩,
      i, StoredChannel.described given.channel.normalized c,
      Archive.getElem?_modified_self hc _, rfl, rfl⟩
  · have hnew : given.channel.normalized.address ∉ a.addresses :=
      Archive.place?_eq_none_iff.mp hplace
    have hunknown : r.sidOf? given.channel.normalized.address = none :=
      hsid.trans (congrArg (Option.map sidAt) hplace)
    have hinsert : r.insertChannel given =
        (r.opened given.channel.normalized, sidAt a.channels.length) := by
      rw [insertChannel_of_new hunknown, hrepresents.next]
    rw [hinsert, hadd]
    refine ⟨⟨hrepresents.extend hfew hplace,
      horderly.extend hnew (Address.normalized_normalized _) hfew⟩,
      a.channels.length, { channel := given.channel.normalized }, ?_, rfl, rfl⟩
    rw [Archive.extended, List.getElem?_append_right (Nat.le_refl _), Nat.sub_self]
    rfl

/-- **Storing a segment adds an entry to the log**, and cannot fail for the id of a place. -/
theorem tracks_putWave (h : r.Tracks a log) (hc : a.channels[i]? = some c)
    (hfew : a.channels.length < sidLimit) (segment : Segment Time) :
    (r.putWave (sidAt i) segment).1 = .ok () ∧
      (r.putWave (sidAt i) segment).2.Tracks (a.modified i (StoredChannel.given segment))
        (log ++ [(sidAt i, segment)]) := by
  obtain ⟨hrepresents, horderly⟩ := h
  have hi : i < sidLimit := Archive.lt_sidLimit_of_getElem? hc hfew
  have hheld := hrepresents.find?_sidAt hi hc
  -- The recording is in order, so sorting it with the segment is inserting the segment.
  have hput : (c.holding (sidAt i)).put segment =
      (StoredChannel.given segment c).holding (sidAt i) := by
    have hwaves := Recording.sortedByStart_concat (horderly.sorted i c hc) segment
    unfold Recording.sortedByStart at hwaves
    unfold Holding.put StoredChannel.holding
    simp only [hwaves]
    rfl
  rw [putWave_of_held hheld, hput]
  exact ⟨rfl, hrepresents.modify hi hc rfl, horderly.insert hc segment hfew⟩

/-! ## Snapshots -/

-- By induction on the segments: storing one leaves a channel at the place, and as many channels as
-- before.
theorem tracks_putWaves (h : r.Tracks a log) (hc : a.channels[i]? = some c)
    (hfew : a.channels.length < sidLimit) (segments : List (Segment Time)) :
    (r.putWaves (sidAt i) segments).1 = .ok () ∧
      (r.putWaves (sidAt i) segments).2.Tracks
        (segments.foldl (fun a segment => a.append i segment) a)
        (log ++ segments.map fun segment => (sidAt i, segment)) := by
  unfold putWaves
  induction segments generalizing r a c log with
  | nil =>
    refine ⟨rfl, ?_⟩
    rw [List.map_nil, List.append_nil]
    exact h
  | cons segment rest ih =>
    obtain ⟨hok, htracks⟩ := tracks_putWave h hc hfew segment
    have hc' : (a.modified i (StoredChannel.given segment)).channels[i]? =
        some (StoredChannel.given segment c) := Archive.getElem?_modified_self hc _
    have hfew' : (a.modified i (StoredChannel.given segment)).channels.length < sidLimit := by
      rw [Archive.modified, List.length_modify]
      exact hfew
    rw [each_cons_of_ok hok, List.map_cons, List.append_cons]
    exact ih htracks hc' hfew'

/-- The segments that the entries of a snapshot store, with the ids that they are stored under. -/
def putsOf : Register → List (Channel × List (Segment Time)) → List (Int32 × Segment Time)
  | _, [] => []
  | r, (channel, segments) :: rest =>
    segments.map (fun segment => ((r.insertChannel ⟨0, channel, none⟩).2, segment)) ++
      putsOf (r.insertRecorded (channel, segments)).2 rest

/-- An entry of a snapshot goes in as a whole. -/
theorem tracks_insertRecorded (h : r.Tracks a log) (entry : Channel × List (Segment Time))
    (hfew : (r.insertRecorded entry).2.ids.length < sidLimit) :
    (r.insertRecorded entry).1 = .ok () ∧
      (r.insertRecorded entry).2.Tracks (a.addRecorded entry)
        (log ++ entry.2.map fun segment => ((r.insertChannel ⟨0, entry.1, none⟩).2, segment)) := by
  have hbefore := Nat.lt_of_le_of_lt (r.grows_insertRecorded entry).count hfew
  -- The bound is on the register at the end, and passes back to those before it as none shrinks.
  have hbetween := Nat.lt_of_le_of_lt (grows_putWaves (r.insertChannel ⟨0, entry.1, none⟩).1
    (r.insertChannel ⟨0, entry.1, none⟩).2 entry.2).count hfew
  rw [h.represents.length_ids] at hbefore
  obtain ⟨hinserted, i, c, hc, hplace, hsid⟩ := tracks_insertChannel h ⟨0, entry.1, none⟩ hbefore
  rw [hinserted.represents.length_ids] at hbetween
  have hadd : a.addRecorded entry =
      entry.2.foldl (fun a segment => a.append i segment) (a.addChannel entry.1).1 := by
    unfold Archive.addRecorded
    dsimp only at hplace ⊢
    rw [hplace, Nat.add_sub_cancel]
  unfold insertRecorded
  dsimp only
  rw [hsid, hadd]
  exact tracks_putWaves hinserted hc hbetween entry.2

/-- **And so do all entries**, one after the other. -/
theorem tracks_insertAll (h : r.Tracks a log) (entries : List (Channel × List (Segment Time)))
    (hfew : (r.insertAll entries).2.ids.length < sidLimit) :
    (r.insertAll entries).1 = .ok () ∧
      (r.insertAll entries).2.Tracks (entries.foldl Archive.addRecorded a)
        (log ++ r.putsOf entries) := by
  unfold insertAll at hfew ⊢
  -- By induction on the entries. What carries it is that no step loses an id, so the bound on the
  -- register at the end holds after each of them.
  induction entries generalizing r a log with
  | nil =>
    refine ⟨rfl, ?_⟩
    rw [putsOf, List.append_nil]
    exact h
  | cons entry rest ih =>
    have hfew₁ := Nat.lt_of_le_of_lt (grows_each_cons grows_insertRecorded r entry rest).count hfew
    obtain ⟨hok, htracks⟩ := tracks_insertRecorded h entry hfew₁
    rw [each_cons_of_ok hok] at hfew ⊢
    rw [putsOf, ← List.append_assoc]
    exact ih htracks hfew

theorem tracks_foldl_addInstrument (h : r.Tracks a log) (instruments : List Instrument) :
    (instruments.foldl addInstrument r).Tracks (instruments.foldl Archive.addInstrument a) log := by
  induction instruments generalizing r a with
  | nil => exact h
  | cons instrument rest ih => exact ih (tracks_addInstrument h instrument)

/-- Loading fails only for a text that is no snapshot. -/
theorem tracks_load (h : r.Tracks a log) {text : String} {snapshot : Snapshot}
    (htext : Snapshot.ofText? text = some snapshot)
    (hfew : (r.load text).2.ids.length < sidLimit) :
    (r.load text).1 = .ok () ∧
      (r.load text).2.Tracks (a.load snapshot)
        (log ++ (snapshot.instruments.foldl addInstrument r).putsOf snapshot.channels) := by
  have hall := tracks_insertAll (tracks_foldl_addInstrument h snapshot.instruments)
    snapshot.channels
  simp only [load, htext] at hfew ⊢
  -- Had an entry failed, this would contradict that all of them go in.
  split at hfew
  · next r' heq =>
    rw [heq] at hall
    exact ⟨rfl, (hall hfew).2⟩
  · next e r' heq =>
    rw [heq] at hall
    cases (hall hfew).1

end Register

end Seismic
