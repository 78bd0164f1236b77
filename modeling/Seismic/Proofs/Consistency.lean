import Seismic.Proofs.Registration

/-!
# Consistency — what holds of a register after every run

A register starts empty and is changed by one call after the other, some of which fail. The log of
a run lists the segments that were stored, each with the id that it was stored under.

* **`Register.tracks_perform`** and **`tracks_run`**: calls have the same outcomes on a register and
  on an archive that holds the same, and leave the two so;
* **`Register.Consistent`**: how the parts of a register fit each other and the log;
* **`Register.consistent_of_run`**: they do after every run.
-/

namespace Seismic

open Archive (sidAt sidLimit segmentsOf)

namespace Archive

/-- A call on an archive. It has no use for the id and the span that come with a description. -/
def perform (a : Archive) : Change → ChangeResult × Archive
  | .addInstrument instrument => (.done, a.addInstrument instrument)
  | .addChannel address =>
    let (a, sid) := a.addChannel { address }
    (.registered sid, a)
  | .insertChannel given =>
    let (a, sid) := a.addChannel given.channel
    (.registered sid, a)
  | .putWave sid segment =>
    match a.store sid.toInt segment with
    | .ok a => (.done, a)
    | .error e => (.failed (.failed e), a)
  | .load text =>
    match Snapshot.ofText? text with
    | some snapshot => (.done, a.load snapshot)
    | none => (.failed .malformed, a)

def run (a : Archive) : List Change → List ChangeResult × Archive
  | [] => ([], a)
  | change :: rest =>
    let (outcome, a) := a.perform change
    let (outcomes, a) := a.run rest
    (outcome :: outcomes, a)

end Archive

/-- What is held under an id, against the segments that were stored under it. -/
structure Holding.Sound (held : Holding) (sid : Int32) (segments : List (Segment Time)) : Prop where
  own : held.registered.sid = sid
  notEmpty : held.registered.channel.address.location ≠ some ""
  notPlaceholder : held.registered.channel.address.location ≠ some "--"
  sorted : held.waves.Sorted
  kept : held.waves.Perm segments
  span : held.registered.span = held.waves.coverage
  spanless : held.waves = [] → held.registered.span = none

namespace Register

/-- The segments that a call stores, with the ids that they are stored under. -/
def stored (r : Register) : Change → List (Int32 × Segment Time)
  | .putWave sid segment =>
    match (r.putWave sid segment).1 with
    | .ok () => [(sid, segment)]
    | .error _ => []
  | .load text =>
    match Snapshot.ofText? text with
    | some snapshot => (snapshot.instruments.foldl addInstrument r).putsOf snapshot.channels
    | none => []
  | .addInstrument _ | .addChannel _ | .insertChannel _ => []

def log (r : Register) : List Change → List (Int32 × Segment Time)
  | [] => []
  | change :: rest => r.stored change ++ (r.perform change).2.log rest

variable {r : Register} {a : Archive} {log₀ : List (Int32 × Segment Time)}

/-! ## Growth -/

/-- No call takes an address or its id away. -/
theorem grows_perform (r : Register) (change : Change) : r.Grows (r.perform change).2 := by
  cases change with
  | addInstrument instrument => exact r.grows_addInstrument instrument
  | addChannel address => exact r.grows_insertChannel ⟨0, { address }, none⟩
  | insertChannel given => exact r.grows_insertChannel given
  | putWave sid segment => exact r.grows_putWave sid segment
  | load text => exact r.grows_load text

theorem grows_run (r : Register) (changes : List Change) : r.Grows (r.run changes).2 := by
  induction changes generalizing r with
  | nil => exact Grows.refl r
  | cons change rest ih => exact (r.grows_perform change).trans (ih _)

/-- The id that is given back is the one that the address has from now on. -/
theorem sidOf?_insertChannel (r : Register) (given : Registered) :
    (r.insertChannel given).1.sidOf? given.channel.normalized.address =
      some (r.insertChannel given).2 := by
  -- The address was known, with or without a holding under its id, or it has just been opened.
  rcases r.insertChannel_cases given with
    ⟨sid, held, hsid, hresult⟩ | ⟨sid, hsid, hresult⟩ | ⟨-, hresult⟩
  · rw [hresult]
    exact hsid
  · rw [hresult]
    exact hsid
  · rw [hresult, sidOf?_opened, if_pos rfl]

/-! ## Runs -/

/-- Registering a channel takes the next place and the next id, which are the same number. -/
theorem tracks_perform_insertChannel (h : r.Tracks a log₀) (given : Registered)
    (hfew : (r.insertChannel given).1.ids.length < sidLimit) :
    (r.perform (.insertChannel given)).1 = (a.perform (.insertChannel given)).1 ∧
      (r.insertChannel given).1.Tracks (a.addChannel given.channel).1 log₀ := by
  have hbefore := Nat.lt_of_le_of_lt (r.grows_insertChannel given).count hfew
  rw [h.represents.length_ids] at hbefore
  obtain ⟨htracks, i, c, hc, hplace, hsid⟩ := tracks_insertChannel h given hbefore
  have hi : i < sidLimit := by
    rw [htracks.represents.length_ids] at hfew
    exact Archive.lt_sidLimit_of_getElem? hc hfew
  refine ⟨?_, htracks⟩
  unfold perform Archive.perform
  dsimp only
  rw [hsid, hplace, Archive.toInt_sidAt hi]

/-- A segment is stored in both, or the id is unknown to both. -/
theorem tracks_perform_putWave (h : r.Tracks a log₀) (sid : Int32) (segment : Segment Time)
    (hfew : a.channels.length < sidLimit) :
    (r.perform (.putWave sid segment)).1 = (a.perform (.putWave sid segment)).1 ∧
      (r.perform (.putWave sid segment)).2.Tracks (a.perform (.putWave sid segment)).2
        (log₀ ++ r.stored (.putWave sid segment)) := by
  unfold perform Archive.perform stored
  dsimp only
  rcases a.store_cases sid.toInt segment with ⟨i, c, hc, hplace, hstore⟩ | ⟨hnone, hstore⟩
  · have hi : i < sidLimit := Archive.lt_sidLimit_of_getElem? hc hfew
    obtain rfl : sid = sidAt i := (Archive.eq_sidAt_iff hi sid).mpr hplace
    obtain ⟨hok, htracks⟩ := tracks_putWave h hc hfew segment
    have hput : r.putWave (sidAt i) segment = (.ok (), (r.putWave (sidAt i) segment).2) :=
      Prod.ext hok rfl
    rw [hput, hstore]
    exact ⟨rfl, htracks⟩
  · have hheld : r.channels.find? sid = none := by
      rw [h.represents.held, hnone, Option.map_none]
    rw [putWave_of_unknown hheld, hstore, List.append_nil]
    exact ⟨rfl, h⟩

/-- A document is loaded into both, or is malformed for both. -/
theorem tracks_perform_load (h : r.Tracks a log₀) (text : String)
    (hfew : (r.load text).2.ids.length < sidLimit) :
    (r.perform (.load text)).1 = (a.perform (.load text)).1 ∧
      (r.perform (.load text)).2.Tracks (a.perform (.load text)).2
        (log₀ ++ r.stored (.load text)) := by
  unfold perform Archive.perform stored
  dsimp only
  cases htext : Snapshot.ofText? text with
  | none =>
    have hload : r.load text = (.error .malformed, r) := by rw [load, htext]
    rw [hload, List.append_nil]
    exact ⟨rfl, h⟩
  | some snapshot =>
    obtain ⟨hok, htracks⟩ := tracks_load h htext hfew
    have hload : r.load text = (.ok (), (r.load text).2) := Prod.ext hok rfl
    rw [hload]
    exact ⟨rfl, htracks⟩

/-- **One call.** -/
theorem tracks_perform (h : r.Tracks a log₀) (change : Change)
    (hfew : (r.perform change).2.ids.length < sidLimit) :
    (r.perform change).1 = (a.perform change).1 ∧
      (r.perform change).2.Tracks (a.perform change).2 (log₀ ++ r.stored change) := by
  have hbefore := Nat.lt_of_le_of_lt (r.grows_perform change).count hfew
  rw [h.represents.length_ids] at hbefore
  cases change with
  | addInstrument instrument =>
    refine ⟨rfl, ?_⟩
    rw [stored, List.append_nil]
    exact tracks_addInstrument h instrument
  | addChannel address =>
    rw [stored, List.append_nil]
    exact tracks_perform_insertChannel h ⟨0, { address }, none⟩ hfew
  | insertChannel given =>
    rw [stored, List.append_nil]
    exact tracks_perform_insertChannel h given hfew
  | putWave sid segment => exact tracks_perform_putWave h sid segment hbefore
  | load text => exact tracks_perform_load h text hfew

/-- **A run of calls.** -/
theorem tracks_run (h : r.Tracks a log₀) (changes : List Change)
    (hfew : (r.run changes).2.ids.length < sidLimit) :
    (r.run changes).1 = (a.run changes).1 ∧
      (r.run changes).2.Tracks (a.run changes).2 (log₀ ++ r.log changes) := by
  induction changes generalizing r a log₀ with
  | nil =>
    refine ⟨rfl, ?_⟩
    rw [log, List.append_nil]
    exact h
  | cons change rest ih =>
    -- Only the end of the run is known to be small, but no register on the way is larger.
    have hfew₁ := Nat.lt_of_le_of_lt ((r.perform change).2.grows_run rest).count hfew
    obtain ⟨houtcome, htracks⟩ := tracks_perform h change hfew₁
    obtain ⟨houtcomes, hrun⟩ := ih htracks hfew
    rw [List.append_assoc] at hrun
    exact ⟨List.cons_eq_cons.mpr ⟨houtcome, houtcomes⟩, hrun⟩

/-! ## Consistency -/

/-- **How the parts of a register fit each other**, and the log of what was stored. -/
structure Consistent (r : Register) (log : List (Int32 × Segment Time)) : Prop where
  keys : ∀ sid : Int32, (r.channels.find? sid).isSome ↔ 1 ≤ sid ∧ sid < r.nextSid
  ordered : r.channels.Sorted
  distinct : (r.ids.map (·.1)).Nodup
  ids : ∀ (address : Address) (sid : Int32), r.sidOf? address = some sid ↔
    ∃ held, r.channels.find? sid = some held ∧ held.registered.channel.address = address
  held : ∀ (sid : Int32) (held : Holding), r.channels.find? sid = some held →
    held.Sound sid (segmentsOf sid log)

namespace Tracks

variable {log : List (Int32 × Segment Time)}

theorem isSome_find?_iff (h : r.Tracks a log) (hfew : a.channels.length < sidLimit) (sid : Int32) :
    (r.channels.find? sid).isSome ↔ 1 ≤ sid ∧ sid < r.nextSid := by
  have hone : (1 : Int32).toInt = 1 := by decide
  rw [Int32.le_iff_toInt_le, Int32.lt_iff_toInt_lt, h.represents.next, Archive.toInt_sidAt hfew,
    hone, h.represents.held, Option.isSome_map]
  -- An id is that of a place, or there is no channel below the first.
  rcases Archive.lt_one_or_succ sid.toInt with hlt | ⟨i, hsid⟩
  · rw [Archive.stored?_of_lt hlt]
    simp only [Option.isSome_none, Bool.false_eq_true, false_iff]
    omega
  · rw [hsid, Archive.stored?_succ]
    simp only [isSome_getElem?]
    omega

theorem sidOf?_eq_some_iff (h : r.Tracks a log) (hfew : a.channels.length < sidLimit)
    (address : Address) (sid : Int32) : r.sidOf? address = some sid ↔
      ∃ held, r.channels.find? sid = some held ∧ held.registered.channel.address = address := by
  rw [h.represents.ids]
  constructor
  · -- An id comes from a place, and the channel there has the address.
    intro hsid
    obtain ⟨i, hplace, rfl⟩ := Option.map_eq_some_iff.mp hsid
    obtain ⟨c, hc, haddress⟩ := Archive.getElem?_of_place? hplace
    have hi : i < sidLimit := Archive.lt_sidLimit_of_getElem? hc hfew
    exact ⟨_, h.represents.find?_sidAt hi hc, haddress⟩
  · -- No other place has the address, so the one that is looked up is that of the channel.
    rintro ⟨held, hheld, rfl⟩
    obtain ⟨i, c, -, hc, rfl, rfl⟩ := h.represents.exists_of_find? hfew hheld
    exact Option.map_eq_some_iff.mpr ⟨i, Archive.place?_of_getElem? h.orderly.distinct hc, rfl⟩

theorem sound (h : r.Tracks a log) (hfew : a.channels.length < sidLimit) {sid : Int32}
    {held : Holding} (hheld : r.channels.find? sid = some held) :
    held.Sound sid (segmentsOf sid log) := by
  obtain ⟨i, c, -, hc, rfl, rfl⟩ := h.represents.exists_of_find? hfew hheld
  have hnormalized : c.channel.address.normalized = c.channel.address :=
    h.orderly.normalized _ (List.mem_map_of_mem (List.mem_of_getElem? hc))
  exact {
    own := rfl
    notEmpty := Address.location_ne_of_normalized hnormalized (by decide)
    notPlaceholder := Address.location_ne_of_normalized hnormalized (by decide)
    sorted := h.orderly.sorted i c hc
    kept := h.orderly.kept i c hc
    span := rfl
    spanless := fun hnil => (congrArg Recording.coverage hnil).trans Recording.coverage_nil }

theorem consistent (h : r.Tracks a log) (hfew : a.channels.length < sidLimit) :
    r.Consistent log where
  keys := h.isSome_find?_iff hfew
  ordered := h.represents.sorted
  distinct := by
    rw [h.represents.addresses]
    exact List.pairwise_reverse.mpr (h.orderly.distinct.imp Ne.symm)
  ids := h.sidOf?_eq_some_iff hfew
  held := fun _ _ => h.sound hfew

end Tracks

/-- **A register is consistent after every run** that registers fewer channels than there are ids.
It then holds what an archive holds after the same calls, which have the same outcomes there. An
address keeps the id that it was registered under in whatever follows, and storing a segment under
an unknown id fails and changes nothing. -/
theorem consistent_of_run (changes : List Change)
    (hfew : (run {} changes).2.ids.length < sidLimit) :
    (run {} changes).2.Consistent (log {} changes) ∧
      (run {} changes).2.Represents (Archive.run {} changes).2 ∧
      (run {} changes).1 = (Archive.run {} changes).1 ∧
      (∀ (given : Registered) (more : List Change),
        (((run {} changes).2.insertChannel given).1.run more).2.sidOf?
            given.channel.address.normalized =
          some ((run {} changes).2.insertChannel given).2) ∧
      (∀ (address : Address) (sid : Int32) (more : List Change),
        (run {} changes).2.sidOf? address = some sid →
          ((run {} changes).2.run more).2.sidOf? address = some sid) ∧
      ∀ (sid : Int32) (segment : Segment Time), (run {} changes).2.channels.find? sid = none →
        (run {} changes).2.putWave sid segment =
          (.error (.unknownSid sid.toInt), (run {} changes).2) := by
  obtain ⟨hresults, htracks⟩ := tracks_run ⟨represents_empty, Archive.orderly_empty⟩ changes hfew
  have hfew' := htracks.represents.length_ids ▸ hfew
  refine ⟨htracks.consistent hfew', htracks.represents, hresults, fun given more => ?_,
    fun address sid more hsid => ?_, fun sid segment hnone => ?_⟩
  · exact (grows_run _ more).sids _ _ (sidOf?_insertChannel _ given)
  · exact (grows_run _ more).sids address sid hsid
  · exact putWave_of_unknown hnone segment

/-- A channel is registered, gets two segments and another spelling of its address. -/
def respelled : List Change := [
  .addChannel ⟨"AKV", "EHZ", "AV", some "--"⟩,
  .putWave 1 ⟨10, 1, [3, 1, 2]⟩,
  .putWave 2 ⟨10, 1, [4]⟩,
  .insertChannel ⟨9, { address := ⟨"AKV", "EHZ", "AV", some ""⟩, unit := some "m/s" }, some ⟨0, 5⟩⟩,
  .putWave 1 ⟨5, 1, [8]⟩,
  .load "["]

theorem consistent_of_respelled :
    (run {} respelled).2.ids.length < sidLimit ∧
      (run {} respelled).1 = [.registered 1, .done, .failed (.failed (.unknownSid 2)),
        .registered 1, .done, .failed .malformed] ∧
      (run {} respelled).2.Consistent [(1, ⟨10, 1, [3, 1, 2]⟩), (1, ⟨5, 1, [8]⟩)] :=
  ⟨by decide +kernel, by decide +kernel, (consistent_of_run respelled (by decide +kernel)).1⟩

end Register

end Seismic
