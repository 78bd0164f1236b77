import Seismic.Archive.Query
import Seismic.Proofs.Doubling
import Seismic.Proofs.Loading

/-!
# Reloading — a snapshot that is loaded once more

A snapshot that has been loaded into an empty archive may be loaded again. All its channels are there
then, so no place and no description changes; but every segment is stored a second time. Nobody who
asks the archive can tell, as long as no sum in an amplitude series is rounded.

* **`Archive.addresses_load_twice`**: the addresses of a snapshot stay where they are;
* **`Archive.Doubles`**: an archive with every segment twice, and **`doubles_load`**: that is what
  loading once more leaves behind;
* **`Archive.AnswersAlike`**: what it means that nobody can tell;
* **`reloaded_answers_alike`**: loading once more succeeds, and no answer changes.
-/

namespace Seismic

namespace Archive

variable {a : Archive} {address : Address}

/-! ## Addresses -/

theorem addresses_foldl_append (a : Archive) (i : Nat) (segments : List (Segment Time)) :
    (segments.foldl (fun a segment => a.append i segment) a).addresses = a.addresses := by
  induction segments generalizing a with
  | nil => rfl
  | cons segment rest ih => exact (ih _).trans (addresses_modified fun _ _ => rfl)

/-- An entry adds its address, unless that is known. -/
theorem addresses_addRecorded (a : Archive) (entry : Entry) :
    (a.addRecorded entry).addresses =
      if entry.1.address.normalized ∈ a.addresses then a.addresses
      else a.addresses ++ [entry.1.address.normalized] := by
  have hadded : (a.addRecorded entry).addresses = (a.addChannel entry.1).1.addresses :=
    addresses_foldl_append _ _ entry.2
  rw [hadded]
  -- Its segments touch no address, so what registering does decides.
  rcases a.addChannel_cases entry.1 with ⟨i, c, hplace, hc, haddress, hadd⟩ | ⟨hplace, hadd⟩
  · have hknown : entry.1.address.normalized ∈ a.addresses := by
      rw [← haddress]
      exact List.mem_map_of_mem (List.mem_of_getElem? hc)
    rw [hadd, if_pos hknown]
    exact addresses_modified_of_eq hc haddress.symm
  · rw [hadd, if_neg (place?_eq_none_iff.mp hplace), addresses_extended]
    rfl

theorem mem_addresses_addRecorded (a : Archive) (entry : Entry) :
    address ∈ (a.addRecorded entry).addresses ↔
      address ∈ a.addresses ∨ address = entry.1.address.normalized := by
  rw [addresses_addRecorded]
  split
  · next hknown => exact ⟨.inl, fun h => h.elim id fun heq => heq ▸ hknown⟩
  · rw [List.mem_append, List.mem_singleton]

theorem mem_addresses_foldl_addRecorded (a : Archive) (entries : List Entry) :
    address ∈ (entries.foldl addRecorded a).addresses ↔
      address ∈ a.addresses ∨ address ∈ Register.addressesOf entries := by
  induction entries generalizing a with
  | nil => simp [Register.addressesOf]
  | cons entry rest ih =>
    have hcons : Register.addressesOf (entry :: rest) =
        entry.1.address.normalized :: Register.addressesOf rest := rfl
    rw [List.foldl_cons, ih, mem_addresses_addRecorded, or_assoc, hcons, List.mem_cons]

/-- Addresses stay distinct. -/
theorem nodup_addresses_foldl_addRecorded (h : a.addresses.Nodup) (entries : List Entry) :
    (entries.foldl addRecorded a).addresses.Nodup := by
  induction entries generalizing a with
  | nil => exact h
  | cons entry rest ih =>
    refine ih ?_
    rw [addresses_addRecorded]
    split
    · exact h
    · next hnew => exact List.concat_eq_append ▸ h.concat hnew

/-- **Known addresses stay where they are.** -/
theorem addresses_foldl_addRecorded {entries : List Entry}
    (h : ∀ address ∈ Register.addressesOf entries, address ∈ a.addresses) :
    (entries.foldl addRecorded a).addresses = a.addresses := by
  induction entries generalizing a with
  | nil => rfl
  | cons entry rest ih =>
    obtain ⟨hentry, hrest⟩ := List.forall_mem_cons.mp h
    have hkept : (a.addRecorded entry).addresses = a.addresses := by
      rw [addresses_addRecorded, if_pos hentry]
    rw [List.foldl_cons, ih fun address haddress => hkept ▸ hrest address haddress, hkept]

/-! ## What a load leaves alone -/

/-- The same archive but for its channels. -/
def SameButChannels (a a' : Archive) : Prop := a' = { a with channels := a'.channels }

theorem SameButChannels.trans {a' a'' : Archive} (h : a.SameButChannels a')
    (h' : a'.SameButChannels a'') : a.SameButChannels a'' := by
  unfold SameButChannels at *
  rw [h', h]

theorem sameButChannels_foldl_append (a : Archive) (i : Nat) (segments : List (Segment Time)) :
    a.SameButChannels (segments.foldl (fun a segment => a.append i segment) a) := by
  induction segments generalizing a with
  | nil => rfl
  | cons segment rest ih =>
    have hone : a.SameButChannels (a.append i segment) := rfl
    exact hone.trans (ih _)

theorem sameButChannels_foldl_addRecorded (a : Archive) (entries : List Entry) :
    a.SameButChannels (entries.foldl addRecorded a) := by
  induction entries generalizing a with
  | nil => rfl
  | cons entry rest ih =>
    have hadded : a.SameButChannels (a.addChannel entry.1).1 := by
      rcases a.addChannel_cases entry.1 with ⟨i, c, -, -, -, hadd⟩ | ⟨-, hadd⟩
      · rw [hadd]
        rfl
      · rw [hadd]
        rfl
    exact (hadded.trans (sameButChannels_foldl_append _ _ entry.2)).trans (ih _)

/-- **A load changes channels and instruments**, and nothing else. -/
theorem load_eq (a : Archive) (snapshot : Snapshot) :
    a.load snapshot =
      { a with
        channels := (a.load snapshot).channels
        instruments := withInstruments a.instruments snapshot.instruments } := by
  have hrest := sameButChannels_foldl_addRecorded (snapshot.instruments.foldl addInstrument a)
    snapshot.channels
  unfold SameButChannels at hrest
  rw [foldl_addInstrument_eq] at hrest
  unfold load
  rw [foldl_addInstrument_eq]
  exact hrest

theorem addresses_foldl_addInstrument (a : Archive) (instruments : List Instrument) :
    (instruments.foldl addInstrument a).addresses = a.addresses := by
  rw [foldl_addInstrument_eq]
  rfl

theorem nodup_addresses_load (h : a.addresses.Nodup) (snapshot : Snapshot) :
    (a.load snapshot).addresses.Nodup := by
  refine nodup_addresses_foldl_addRecorded ?_ _
  rwa [addresses_foldl_addInstrument]

/-- After a snapshot all its addresses are known, so loading it once more moves none. -/
theorem addresses_load_twice (a : Archive) (snapshot : Snapshot) :
    ((a.load snapshot).load snapshot).addresses = (a.load snapshot).addresses := by
  refine (addresses_foldl_addRecorded fun address hmem => ?_).trans
    (addresses_foldl_addInstrument _ _)
  rw [addresses_foldl_addInstrument]
  exact (mem_addresses_foldl_addRecorded _ _).mpr (.inr hmem)

end Archive

/-! ## Every segment twice -/

/-- The same channel with every segment twice. -/
structure StoredChannel.Doubles (c c' : StoredChannel) : Prop where
  channel : c'.channel = c.channel
  recording : Doubled c.recording c'.recording

/-- **The same entries a second time.** -/
theorem StoredChannel.merged?_twice {entries : List Entry} {c : StoredChannel}
    (h : merged? none entries = some c) :
    ∃ c', merged? (some c) entries = some c' ∧ c.Doubles c' := by
  unfold merged? at h ⊢
  cases hlast : entries.getLast? with
  | none =>
    rw [hlast] at h
    cases h
  | some last =>
    rw [hlast] at h
    obtain rfl := Option.some.inj h
    exact ⟨_, rfl, rfl, Recording.doubled_foldl_insert _ rfl⟩

namespace Archive

variable {a a' : Archive} {address : Address}

/-- The same archive with every segment twice. -/
structure Doubles (a a' : Archive) : Prop where
  channels : ∀ i : Nat, Option.Rel StoredChannel.Doubles a.channels[i]? a'.channels[i]?
  instruments : a'.instruments = a.instruments
  online : a'.online = a.online
  maxSamples : a'.maxSamples = a.maxSamples

/-- A channel that came from a snapshot gets each of its segments once more. -/
theorem rel_load_twice (hempty : a.channels = []) (snapshot : Snapshot) (i : Nat) :
    Option.Rel StoredChannel.Doubles (a.load snapshot).channels[i]?
      ((a.load snapshot).load snapshot).channels[i]? := by
  have haddresses := addresses_load_twice a snapshot
  have hnone : a.addresses = [] := by rw [addresses, hempty, List.map_nil]
  have hdistinct := nodup_addresses_load (hnone ▸ List.nodup_nil) snapshot
  -- Both loads have the same places. At each of them the entries with one address were merged,
  -- first into nothing and then into what came of that.
  cases hc : (a.load snapshot).channels[i]? with
  | none =>
    have hlength := congrArg List.length haddresses
    rw [addresses, addresses, List.length_map, List.length_map] at hlength
    rw [List.getElem?_eq_none_iff, ← hlength, ← List.getElem?_eq_none_iff] at hc
    rw [hc]
    exact .none
  | some c =>
    have hplace := place?_of_getElem? hdistinct hc
    have hplace' : ((a.load snapshot).load snapshot).place? c.channel.address = some i := by
      rw [place?_eq_findIdx?, haddresses, ← place?_eq_findIdx?, hplace]
    have hfirst : a.at? c.channel.address = none :=
      at?_of_new (place?_eq_none_iff.mpr (hnone ▸ List.not_mem_nil))
    have hstored := (at?_of_place? hplace).trans hc
    rw [at?_load, hfirst] at hstored
    obtain ⟨c', hc', hdoubles⟩ := StoredChannel.merged?_twice hstored
    rw [← at?_of_place? hplace', at?_load, at?_load, hfirst, hstored, hc']
    exact .some hdoubles

/-- **Loading a snapshot once more** stores every segment a second time, if there was none before. -/
theorem doubles_load (hempty : a.channels = []) (hsorted : a.instruments.Sorted)
    (snapshot : Snapshot) : (a.load snapshot).Doubles ((a.load snapshot).load snapshot) where
  channels := rel_load_twice hempty snapshot
  instruments := by
    have hinstruments (a : Archive) : (a.load snapshot).instruments = _ :=
      congrArg Archive.instruments (load_eq a snapshot)
    rw [hinstruments (a.load snapshot), hinstruments a]
    exact Table.foldl_insert_twice _ hsorted
  online := (congrArg Archive.online (load_eq _ snapshot)).trans rfl
  maxSamples := (congrArg Archive.maxSamples (load_eq _ snapshot)).trans rfl

/-! ## Answers -/

/-- **The archive `a'` answers as `a` does**, whatever it is asked. Amplitude series are compared where
no sum is rounded. -/
structure AnswersAlike (a a' : Archive) : Prop where
  sidOf? : ∀ address, (a'.ask (·.sidOf? address)).1 = (a.ask (·.sidOf? address)).1
  coverage : ∀ sid, (a'.ask (coverage sid)).1 = (a.ask (coverage sid)).1
  wave : ∀ sid window, (a'.ask (wave sid window)).1 = (a.ask (wave sid window)).1
  helicorder : ∀ sid window coarse,
    (a'.ask (helicorder sid window coarse)).1 = (a.ask (helicorder sid window coarse)).1
  rsam : ∀ sid window period,
    Bucket.Exact (Rsam.interval period) ((a'.recording sid).clipped window) →
      (a'.ask (rsam sid window period)).1 = (a.ask (rsam sid window period)).1
  gaps : ∀ address window, (a'.ask (gaps address window)).1 = (a.ask (gaps address window)).1
  listings : ∀ withMetadata,
    (a'.ask (listings withMetadata)).1 = (a.ask (listings withMetadata)).1
  instrumentList : (a'.ask instrumentList).1 = (a.ask instrumentList).1

namespace Doubles

variable (h : a.Doubles a')
include h

/-- Place by place there is a channel in both archives or in neither. -/
theorem channels_cases (i : Nat) : (a.channels[i]? = none ∧ a'.channels[i]? = none) ∨
    ∃ c c', a.channels[i]? = some c ∧ a'.channels[i]? = some c' ∧ c.Doubles c' := by
  have hrel := h.channels i
  generalize a.channels[i]? = x at hrel ⊢
  generalize a'.channels[i]? = y at hrel ⊢
  cases hrel with
  | none => exact .inl ⟨rfl, rfl⟩
  | some hc => exact .inr ⟨_, _, rfl, rfl, hc⟩

/-- The addresses are the same. -/
theorem addresses_eq : a'.addresses = a.addresses := by
  refine List.ext_getElem? fun i => ?_
  rw [addresses, addresses, List.getElem?_map, List.getElem?_map]
  rcases h.channels_cases i with ⟨hc, hc'⟩ | ⟨c, c', hc, hc', htwice⟩
  · rw [hc, hc']
  · rw [hc, hc', Option.map_some, Option.map_some, htwice.channel]

theorem sidOf?_eq (address : Address) : a'.sidOf? address = a.sidOf? address := by
  rw [sidOf?, place?_eq_findIdx?, h.addresses_eq, ← place?_eq_findIdx?, ← sidOf?]

/-- Recordings are the same with every segment twice, or both empty. -/
theorem doubled_recording (sid : Int) : Doubled (a.recording sid) (a'.recording sid) := by
  unfold recording stored?
  -- There is no channel below the first id, and behind the last one there is none in either.
  split
  · exact .nil
  · rcases h.channels_cases (sid.toNat - 1) with ⟨hc, hc'⟩ | ⟨c, c', hc, hc', htwice⟩
    · rw [hc, hc']
      exact .nil
    · rw [hc, hc']
      exact htwice.recording

theorem gaps_eq (address : Address) (window : Span Time) :
    Archive.gaps address window a' = Archive.gaps address window a := by
  unfold Archive.gaps
  rw [h.sidOf?_eq]
  cases a.sidOf? address with
  | none => rfl
  | some sid => exact Recording.gaps_doubled (h.doubled_recording sid) window

theorem listings_eq (withMetadata : Bool) :
    Archive.listings withMetadata a' = Archive.listings withMetadata a := by
  refine List.ext_getElem? fun i => ?_
  unfold Archive.listings
  rw [List.getElem?_map, List.getElem?_map, List.getElem?_zipIdx, List.getElem?_zipIdx]
  rcases h.channels_cases i with ⟨hc, hc'⟩ | ⟨c, c', hc, hc', htwice⟩
  · rw [hc, hc']
  · simp only [hc, hc', Option.map_some, htwice.channel,
      Recording.coverage_doubled htwice.recording]

theorem ask_eq {β : Type} {query : Archive → β} (hquery : query a' = query a) :
    (a'.ask query).1 = (a.ask query).1 := by
  unfold ask
  rw [h.online, hquery]

/-- **Nobody can tell whether the segments are stored once or twice.** -/
theorem answersAlike : a.AnswersAlike a' where
  sidOf? := fun address => h.ask_eq (h.sidOf?_eq address)
  coverage := fun sid => h.ask_eq (Recording.coverage_doubled (h.doubled_recording sid))
  wave := fun sid window => h.ask_eq (by
    unfold Archive.wave
    rw [h.maxSamples, Recording.wave_doubled (h.doubled_recording sid)])
  helicorder := fun sid window coarse => h.ask_eq (by
    unfold Archive.helicorder
    rw [Helicorder.rows_doubled (Recording.clipped_doubled (h.doubled_recording sid) window)])
  rsam := fun sid window period hexact => h.ask_eq (by
    unfold Archive.rsam
    rw [Rsam.rows_doubled (Recording.clipped_doubled (h.doubled_recording sid) window) hexact])
  gaps := fun address window => h.ask_eq (h.gaps_eq address window)
  listings := fun withMetadata => h.ask_eq (h.listings_eq withMetadata)
  instrumentList := h.ask_eq (congrArg Table.values h.instruments)

end Doubles

/-- The archive with nothing in it. -/
def emptied (a : Archive) : Archive := { a with channels := [], instruments := {} }

end Archive

/-- **Loading a snapshot once more** into an archive that was empty before succeeds, on a register as
well. Every segment is stored twice then, and every answer is the same. -/
theorem reloaded_answers_alike {text : String} {snapshot : Snapshot}
    (htext : Snapshot.ofText? text = some snapshot) (a : Archive) :
    (Register.run {} [.load text, .load text]).1 = [.done, .done] ∧
      (a.emptied.run [.load text, .load text]).1 = [.done, .done] ∧
      (∀ sid, ((a.emptied.run [.load text, .load text]).2.recording sid).Perm
        ((a.emptied.run [.load text]).2.recording sid ++
          (a.emptied.run [.load text]).2.recording sid)) ∧
      (a.emptied.run [.load text]).2.AnswersAlike (a.emptied.run [.load text, .load text]).2 := by
  have hload (r : Register) (hr : r.Coherent) : (r.perform (.load text)).1 = .done ∧
      (r.perform (.load text)).2.Coherent := by
    refine ⟨?_, Register.coherent_perform hr _⟩
    show ChangeResult.ofExcept (r.load text).1 = .done
    rw [Register.load_of_snapshot hr htext]
    rfl
  have hperform (a : Archive) : a.perform (.load text) = (.done, a.load snapshot) := by
    simp only [Archive.perform, htext]
  have honce : a.emptied.run [.load text] = ([.done], a.emptied.load snapshot) := by
    simp only [Archive.run, hperform]
  have htwice : a.emptied.run [.load text, .load text] =
      ([.done, .done], (a.emptied.load snapshot).load snapshot) := by
    simp only [Archive.run, hperform]
  have hdoubles : (a.emptied.load snapshot).Doubles ((a.emptied.load snapshot).load snapshot) :=
    Archive.doubles_load rfl Table.sorted_empty snapshot
  rw [honce, htwice]
  refine ⟨?_, rfl, fun sid => (hdoubles.doubled_recording sid).perm, hdoubles.answersAlike⟩
  obtain ⟨hfirst, hcoherent⟩ := hload {} Register.coherent_empty
  obtain ⟨hsecond, -⟩ := hload _ hcoherent
  have hrun : (Register.run {} [.load text, .load text]).1 =
      [(Register.perform {} (.load text)).1,
        ((Register.perform {} (.load text)).2.perform (.load text)).1] := rfl
  rw [hrun, hfirst, hsecond]

/-- A channel with two segments that start at the same time. -/
def sameStartText : String :=
  Json.objectText [("channels", "[" ++
    Json.objectText [
      ("scnl", "[\"AKV\", \"EHZ\", \"AV\"]"),
      ("waves", "[[9, 1, [1]], [9, 1, [2]]]")] ++ "]")]

theorem sameStartText_answers_alike :
    (Archive.run {} [.load sameStartText]).2.AnswersAlike
      (Archive.run {} [.load sameStartText, .load sameStartText]).2 := by
  have htext : Snapshot.ofText? sameStartText = some {
      channels := [({ address := ⟨"AKV", "EHZ", "AV", none⟩ }, [⟨9, 1, [1]⟩, ⟨9, 1, [2]⟩])] } := by
    decide +kernel
  exact (reloaded_answers_alike htext {}).2.2.2

end Seismic
