import Seismic.Proofs.Addresses
import Seismic.Proofs.Loading

/-!
# Spelling — one id for a channel, however its address is spelled

A channel is registered by itself, with a description or as an entry of a snapshot, and it is asked
for by its address or by a request line. On each of these ways its address may be spelled
differently if it has no location.

* **`Snapshot.addresses_of_ofJson?`**: the channels of a snapshot have the addresses that its
  document spells, normalized;
* **`Register.Tidy`**: every address that has an id is normalized and has just one;
* **`Register.Knows`**: what that means for a channel that has been registered;
* **`address_means_one_channel`** puts this together with the texts of an address.
-/

namespace Seismic

/-! ## Documents -/

namespace Snapshot

open Json (required defaulted)

/-- The codes of an address as a document spells them. -/
def codes? (json : Json) : Option Address := do
  let [station, channel, network, location] ←
    json.fields? ["station", "channel", "network", "location"] | none
  some {
    station := ← required Json.text? station
    channel := ← required Json.text? channel
    network := ← required Json.text? network
    location := ← defaulted none (Json.optional? Json.text?) location }

/-- The codes of the channel that an entry of a snapshot describes. -/
def entryCodes? (json : Json) : Option Address := do
  let [address] ← json.fields? ["scnl"] | none
  required codes? address

/-- The codes of all channels that a document lists. -/
def listedCodes? (json : Json) : Option (List Address) := do
  let [_, channels] ← json.fields? ["instruments", "channels"] | none
  defaulted [] (Json.list? entryCodes?) channels

/-- **A document is read as the address that it spells**, normalized. -/
theorem address?_eq (json : Json) : address? json = (codes? json).map Address.normalized := by
  unfold address? codes?
  simp only [Option.bind_eq_bind, Option.map_bind]
  congr 1
  funext fields
  rw [Function.comp_apply]
  -- Only four fields are an address.
  rcases fields with _ | ⟨station, _ | ⟨channel, _ | ⟨network, _ | ⟨location, _ | ⟨_, _⟩⟩⟩⟩⟩
  case cons.cons.cons.cons.nil =>
    simp only [Option.map_bind, Function.comp_def, Option.map_some]
  all_goals rfl

/-- A channel has the address in its document. -/
theorem exists_of_channel? {entries : List (Option String × Json)} {channel : Channel}
    (h : channel? (.object entries) = some channel) :
    ∃ named field, (Json.object entries).entries? = some named ∧
      Json.field? named "scnl" = some field ∧ required address? field = some channel.address := by
  unfold channel? at h
  simp only [Option.bind_eq_bind, Option.bind_eq_some_iff] at h
  obtain ⟨fields, hfields, h⟩ := h
  split at h
  · next sid address span linearA linearB otherName unit groups metadata instrument =>
    simp only [Option.bind_eq_some_iff] at h
    obtain ⟨_, -, _, -, address', haddress, _, -, _, -, _, -, _, -, _, -, _, -, _, -, h⟩ := h
    cases h
    -- The address is one of the fields that are read, so there is a field for it.
    unfold Json.fields? at hfields
    simp only [Option.bind_eq_some_iff, List.mapM_cons, Option.bind_eq_bind, Option.pure_def,
      Option.some.injEq] at hfields
    obtain ⟨named, hnamed, _, -, _, ⟨_, hfield, _, -, rfl⟩, hfields⟩ := hfields
    cases hfields
    exact ⟨named, address, hnamed, hfield, haddress⟩
  · cases h

/-- Entries that are left out under another key leave a field as it is. -/
theorem exists_named {entries : List (Option String × Json)} {named : List (String × Json)}
    {other name : String} (hne : name ≠ other)
    (h : (Json.object (entries.filter fun e => !decide (e.1 = some other))).entries? =
      some named) :
    ∃ all, (Json.object entries).entries? = some all ∧
      Json.field? all name = Json.field? named name := by
  -- Only the entries with the name are looked at, and none of these is left out.
  suffices hall : ∃ all, (Json.object entries).entries? = some all ∧
      (all.filter fun e => e.1 = name) = named.filter fun e => e.1 = name by
    obtain ⟨all, hentries, hfilter⟩ := hall
    refine ⟨all, hentries, ?_⟩
    unfold Json.field?
    rw [hfilter]
  unfold Json.entries? at h ⊢
  induction entries generalizing named with
  | nil => exact ⟨named, h, rfl⟩
  | cons e rest ih =>
    obtain ⟨key, value⟩ := e
    by_cases hkey : key = some other
    · -- An entry under the other key has a key, and is not the one that is looked for.
      rw [List.filter_cons_of_neg (by simp [hkey])] at h
      obtain ⟨all, hall, hfilter⟩ := ih h
      refine ⟨(other, value) :: all, ?_, ?_⟩
      · simp [List.mapM_cons, hall, hkey]
      · rw [List.filter_cons_of_neg (by simp [Ne.symm hne]), hfilter]
    · rw [List.filter_cons_of_pos (by simp [hkey])] at h
      simp only [List.mapM_cons, Option.bind_eq_bind, Option.bind_eq_some_iff, Option.map_eq_some_iff,
        Option.pure_def, Option.some.injEq] at h
      obtain ⟨_, ⟨word, rfl, rfl⟩, more, hmore, rfl⟩ := h
      obtain ⟨all, hall, hfilter⟩ := ih hmore
      refine ⟨(word, value) :: all, ?_, ?_⟩
      · simp [List.mapM_cons, hall]
      · rw [List.filter_cons, List.filter_cons, hfilter]

/-- **An entry has the address that its document spells**, normalized. -/
theorem entryCodes?_of_recorded? {json : Json} {entry : Entry} (h : recorded? json = some entry) :
    ∃ raw, entryCodes? json = some raw ∧ entry.1.address = raw.normalized := by
  unfold recorded? at h
  split at h
  · next entries =>
    rw [List.partition_eq_filter_filter] at h
    simp only [Option.bind_eq_bind, Option.bind_eq_some_iff] at h
    obtain ⟨_, -, h⟩ := h
    split at h
    · rw [Option.bind_none, Option.ite_none_left_eq_some] at h
      simp only [Option.bind_eq_some_iff, Option.some.injEq] at h
      obtain ⟨-, channel, hchannel, _, -, rfl⟩ := h
      obtain ⟨named, field, hnamed, hfield, haddress⟩ := exists_of_channel? hchannel
      obtain ⟨all, hall, hsame⟩ := exists_named (show "scnl" ≠ "waves" by decide) hnamed
      obtain ⟨address, rfl, hread⟩ := Option.bind_eq_some_iff.mp haddress
      rw [address?_eq, Option.map_eq_some_iff] at hread
      obtain ⟨raw, hraw, hnormalized⟩ := hread
      refine ⟨raw, ?_, hnormalized.symm⟩
      have hfields : (Json.object entries).fields? ["scnl"] = some [some address] := by
        unfold Json.fields?
        simp [hall, hsame, hfield]
      unfold entryCodes?
      rw [hfields]
      exact hraw
    · cases h
  · cases h

/-- So do all entries of a document, one by one. -/
theorem mapM_entryCodes? {items : List Json} {channels : List Entry}
    (h : items.mapM recorded? = some channels) :
    ∃ raws, items.mapM entryCodes? = some raws ∧
      channels.map (·.1.address) = raws.map Address.normalized := by
  induction items generalizing channels with
  | nil =>
    cases h
    exact ⟨[], rfl, rfl⟩
  | cons item rest ih =>
    simp only [List.mapM_cons, Option.bind_eq_bind, Option.bind_eq_some_iff, Option.pure_def,
      Option.some.injEq] at h
    obtain ⟨entry, hentry, more, hmore, rfl⟩ := h
    obtain ⟨raw, hraw, haddress⟩ := entryCodes?_of_recorded? hentry
    obtain ⟨raws, hraws, haddresses⟩ := ih hmore
    refine ⟨raw :: raws, ?_, ?_⟩
    · simp [List.mapM_cons, hraw, hraws]
    · rw [List.map_cons, List.map_cons, haddress, haddresses]

/-- **The channels of a snapshot have the addresses that its document spells**, normalized and in
its order. -/
theorem addresses_of_ofJson? {json : Json} {snapshot : Snapshot}
    (h : ofJson? json = some snapshot) :
    ∃ raws, listedCodes? json = some raws ∧
      snapshot.channels.map (·.1.address) = raws.map Address.normalized := by
  unfold ofJson? at h
  simp only [Option.bind_eq_bind, Option.bind_eq_some_iff] at h
  obtain ⟨_, hfields, h⟩ := h
  split at h
  · next instruments channels =>
    simp only [Option.bind_eq_some_iff, Option.some.injEq] at h
    obtain ⟨_, -, entries, hentries, rfl⟩ := h
    unfold listedCodes?
    rw [hfields]
    cases channels with
    | none =>
      cases hentries
      exact ⟨[], rfl, rfl⟩
    | some document =>
      cases document with
      | array items => exact mapM_entryCodes? hentries
      | _ => cases hentries
  · cases h

/-- A text is a snapshot that lists a channel with the given codes. -/
def Lists (text : String) (raw : Address) : Prop :=
  (ofText? text).isSome ∧ ∃ raws, (Json.ofText? text).bind listedCodes? = some raws ∧ raw ∈ raws

/-- A document that lists a channel has an entry with its address. -/
theorem exists_entry_of_lists {text : String} {raw : Address} (h : Lists text raw) :
    ∃ snapshot, ofText? text = some snapshot ∧
      ∃ entry ∈ snapshot.channels, entry.1.address = raw.normalized := by
  obtain ⟨hsome, raws, hraws, hraw⟩ := h
  obtain ⟨snapshot, htext⟩ := Option.isSome_iff_exists.mp hsome
  obtain ⟨json, hjson, hsnapshot⟩ := Option.bind_eq_some_iff.mp htext
  rw [hjson, Option.bind_some] at hraws
  obtain ⟨raws', hraws', haddresses⟩ := addresses_of_ofJson? hsnapshot
  obtain rfl := Option.some.inj (hraws'.symm.trans hraws)
  have hmem : raw.normalized ∈ snapshot.channels.map (·.1.address) := by
    rw [haddresses]
    exact List.mem_map_of_mem hraw
  exact ⟨snapshot, htext, List.mem_map.mp hmem⟩

end Snapshot

/-! ## Registers -/

namespace Register

variable {r : Register} {raw : Address}

/-- A call that registers a channel whose address is spelled as given. -/
inductive Registers (raw : Address) : Change → Prop
  | bare : Registers raw (.addChannel raw)
  | described {given : Registered} (h : given.channel.address = raw) :
    Registers raw (.insertChannel given)
  | listed {text : String} (h : Snapshot.Lists text raw) : Registers raw (.load text)

/-- Every address that has an id is normalized, and has just one. -/
structure Tidy (r : Register) : Prop where
  distinct : (r.ids.map (·.1)).Nodup
  normalized : ∀ entry ∈ r.ids, entry.1.normalized = entry.1

theorem tidy_empty : Tidy {} := ⟨List.nodup_nil, nofun⟩

/-- An address has an id if it is among those that are known. -/
theorem mem_names_iff (r : Register) (address : Address) :
    address ∈ r.ids.map (·.1) ↔ r.sidOf? address ≠ none := by
  unfold sidOf?
  induction r.ids with
  | nil => simp
  | cons entry rest ih =>
    obtain ⟨known, sid⟩ := entry
    by_cases heq : address = known
    · simp [heq]
    · simp [heq, List.lookup_cons, beq_eq_false_iff_ne.mpr heq, ← ih]

/-- With distinct keys, what is looked up is all that there is under a key. -/
theorem filter_of_lookup {entries : List (Address × Int32)} {address : Address} {sid : Int32}
    (hdistinct : (entries.map (·.1)).Nodup) (h : entries.lookup address = some sid) :
    (entries.filter fun entry => entry.1 = address) = [(address, sid)] := by
  induction entries with
  | nil => cases h
  | cons entry rest ih =>
    obtain ⟨known, sid'⟩ := entry
    obtain ⟨hnew, hrest⟩ := List.nodup_cons.mp hdistinct
    rw [List.lookup_cons] at h
    by_cases heq : address = known
    · have hnone : (rest.filter fun entry => entry.1 = address) = [] := by
        rw [List.filter_eq_nil_iff]
        intro entry hentry hsame
        exact hnew (List.mem_map.mpr ⟨entry, hentry, (of_decide_eq_true hsame).trans heq⟩)
      simp only [heq, beq_self_eq_true, Option.some.injEq] at h hnone ⊢
      rw [List.filter_cons_of_pos (by simp), hnone, h]
    · rw [beq_eq_false_iff_ne.mpr heq] at h
      rw [List.filter_cons_of_neg (by simp [Ne.symm heq])]
      exact ih hrest h

namespace Tidy

theorem of_sameNames {r' : Register} (h : r.Tidy) (hsame : r.SameNames r') : r'.Tidy := by
  obtain ⟨hdistinct, hnormalized⟩ := h
  rw [← hsame.ids] at hdistinct hnormalized
  exact ⟨hdistinct, hnormalized⟩

theorem opened (h : r.Tidy) {channel : Channel} (hnew : r.sidOf? channel.address = none)
    (hnormalized : channel.address.normalized = channel.address) : (r.opened channel).Tidy where
  distinct := by
    refine List.nodup_cons.mpr ⟨fun hmem => ?_, h.distinct⟩
    exact (r.mem_names_iff channel.address).mp hmem hnew
  normalized := List.forall_mem_cons.mpr ⟨hnormalized, h.normalized⟩

theorem insertChannel (h : r.Tidy) (given : Registered) : (r.insertChannel given).1.Tidy := by
  rcases r.insertChannel_names given with ⟨_, -, hsame⟩ | ⟨hnew, hsame⟩
  · exact h.of_sameNames hsame
  · exact (h.opened hnew (Address.normalized_normalized _)).of_sameNames hsame

theorem putWave (h : r.Tidy) (sid : Int32) (segment : Segment Time) :
    (r.putWave sid segment).2.Tidy := by
  cases hheld : r.channels.find? sid with
  | none =>
    rw [putWave_of_unknown hheld]
    exact h
  | some held =>
    rw [putWave_of_held hheld]
    exact h.of_sameNames ⟨rfl, rfl, rfl⟩

theorem insertAll (h : r.Tidy) (hcoherent : r.Coherent) (entries : List Entry) :
    (r.insertAll entries).2.Tidy := by
  -- What is carried from entry to entry is that all entries succeed, and that addresses stay tidy.
  have hstep : ∀ (r : Register) (entry : Entry), r.Coherent ∧ r.Tidy →
      (r.insertRecorded entry).1 = .ok () ∧
        (r.insertRecorded entry).2.Coherent ∧ (r.insertRecorded entry).2.Tidy := by
    rintro r entry ⟨hcoherent, htidy⟩
    obtain ⟨hok, hnext, hsame⟩ := insertRecorded_ok hcoherent entry
    exact ⟨hok, hnext, (htidy.insertChannel _).of_sameNames hsame⟩
  exact (each_of_step hstep entries ⟨hcoherent, h⟩).2.2

/-- **One call** keeps addresses normalized and distinct. -/
theorem perform (h : r.Tidy) (hcoherent : r.Coherent) (change : Change) :
    (r.perform change).2.Tidy := by
  cases change with
  | addInstrument instrument => exact ⟨h.distinct, h.normalized⟩
  | addChannel address => exact h.insertChannel ⟨0, { address }, none⟩
  | insertChannel given => exact h.insertChannel given
  | putWave sid segment => exact h.putWave sid segment
  | load text =>
    show (r.load text).2.Tidy
    cases htext : Snapshot.ofText? text with
    | none =>
      rw [load_of_none htext]
      exact h
    | some snapshot =>
      have hadded := coherent_foldl_addInstrument hcoherent snapshot.instruments
      rw [load_of_snapshot hcoherent htext]
      refine insertAll ?_ hadded snapshot.channels
      rw [foldl_addInstrument_eq]
      exact ⟨h.distinct, h.normalized⟩

/-- **And so does a run of calls.** -/
theorem run (h : r.Tidy) (hcoherent : r.Coherent) (changes : List Change) :
    (r.run changes).2.Tidy := by
  induction changes generalizing r with
  | nil => exact h
  | cons change rest ih => exact ih (h.perform hcoherent change) (coherent_perform hcoherent change)

/-- An address that has an id is the only one of its spellings that has one. -/
theorem filter_alike (h : r.Tidy) {sid : Int32} (hsid : r.sidOf? raw.normalized = some sid) :
    (r.ids.filter fun entry => entry.1.Alike raw) = [(raw.normalized, sid)] := by
  -- Known addresses are normalized, so one that is alike is the normalized one.
  have halike : (r.ids.filter fun entry => entry.1.Alike raw) =
      r.ids.filter fun entry => entry.1 = raw.normalized := by
    refine List.filter_congr fun entry hentry => ?_
    rw [decide_eq_decide, ← Address.normalized_eq_iff, h.normalized entry hentry]
  rw [halike]
  exact filter_of_lookup h.distinct hsid

end Tidy

/-- What an address or a request line comes to in a register in which a channel has an id. -/
structure Knows (r : Register) (raw : Address) (sid : Int32) : Prop where
  /-- No other spelling of the address has an id of its own. -/
  single : (r.ids.filter fun entry => entry.1.Alike raw) = [(raw.normalized, sid)]
  found : ∀ a : Address, a.Alike raw →
    r.sidOf? (.of a.station a.channel a.network a.location) = some sid
  asked : ∀ (a : Address) (keyword id : String) (more : List String), a.Alike raw → a.Free ' ' →
    Address.Frames keyword id more →
      ∃ c, Command.parse? (a.requestLine keyword id true more) = some c ∧
        (c.address? true).bind r.sidOf? = some sid
  askedShort : ∀ (a : Address) (keyword id : String) (more : List String), a.Alike raw →
    a.Free ' ' → Address.Frames keyword id more → a.location ∈ Address.noLocation →
      ∃ c, Command.parse? (a.requestLine keyword id false more) = some c ∧
        (c.address? false).bind r.sidOf? = some sid
  /-- Registering the channel again gives out no id. -/
  again : ∀ given : Registered, given.channel.address.Alike raw →
    (r.insertChannel given).2 = sid ∧ r.SameNames (r.insertChannel given).1

/-- **Every spelling leads to the id of its normalized address.** -/
theorem knows_of_sidOf? (h : r.Tidy) {sid : Int32} (hsid : r.sidOf? raw.normalized = some sid) :
    r.Knows raw sid where
  single := h.filter_alike hsid
  found := by
    intro a ha
    rw [Address.of_eq_normalized, Address.normalized_eq_iff.mpr ha]
    exact hsid
  asked := by
    intro a keyword id more ha hfree hframes
    obtain ⟨c, hparse, haddress⟩ := Address.address?_requestLine hframes hfree
    refine ⟨c, hparse, ?_⟩
    rw [haddress, Address.normalized_eq_iff.mpr ha]
    exact hsid
  askedShort := by
    intro a keyword id more ha hfree hframes hnone
    obtain ⟨c, hparse, haddress⟩ := Address.address?_requestLine_short hframes hfree hnone
    refine ⟨c, hparse, ?_⟩
    rw [haddress, Address.normalized_eq_iff.mpr ha]
    exact hsid
  again := by
    intro given ha
    have hknown : r.sidOf? given.channel.normalized.address = some sid := by
      rw [Channel.address_normalized, Address.normalized_eq_iff.mpr ha]
      exact hsid
    rcases r.insertChannel_cases given with
      ⟨known, held, hsid', hresult⟩ | ⟨known, hsid', hresult⟩ | ⟨hnew, -⟩
    · rw [hknown] at hsid'
      cases hsid'
      rw [hresult]
      exact ⟨rfl, rfl, rfl, rfl⟩
    · rw [hknown] at hsid'
      cases hsid'
      rw [hresult]
      exact ⟨rfl, rfl, rfl, rfl⟩
    · rw [hknown] at hnew
      cases hnew

/-- A call that registers a channel gives its address an id. -/
theorem exists_sidOf?_of_registers (h : r.Coherent) {change : Change}
    (hchange : Registers raw change) :
    ∃ sid, (r.perform change).2.sidOf? raw.normalized = some sid := by
  cases hchange with
  | bare => exact ⟨_, r.sidOf?_insertChannel ⟨0, { address := raw }, none⟩⟩
  | @described given haddress =>
    subst haddress
    exact ⟨_, r.sidOf?_insertChannel given⟩
  | @listed text hlists =>
    obtain ⟨snapshot, htext, entry, hentry, haddress⟩ := Snapshot.exists_entry_of_lists hlists
    have hmem : raw.normalized ∈ addressesOf snapshot.channels := by
      refine List.mem_map.mpr ⟨entry, hentry, ?_⟩
      rw [haddress, Address.normalized_normalized]
    show ∃ sid, (r.load text).2.sidOf? raw.normalized = some sid
    rw [load_of_snapshot h htext,
      sidOf?_insertAll (coherent_foldl_addInstrument h snapshot.instruments), sidAfter?, if_pos hmem]
    cases (snapshot.instruments.foldl addInstrument r).sidOf? raw.normalized with
    | none => exact ⟨_, rfl⟩
    | some sid => exact ⟨sid, rfl⟩

theorem exists_sidOf?_run (h : r.Coherent) {changes : List Change}
    (hchanges : ∃ change ∈ changes, Registers raw change) :
    ∃ sid, (r.run changes).2.sidOf? raw.normalized = some sid := by
  induction changes generalizing r with
  | nil =>
    obtain ⟨_, hmem, -⟩ := hchanges
    cases hmem
  | cons first rest ih =>
    obtain ⟨change, hmem, hchange⟩ := hchanges
    rcases List.mem_cons.mp hmem with rfl | hrest
    · obtain ⟨sid, hsid⟩ := exists_sidOf?_of_registers h hchange
      exact ⟨sid, (grows_run _ rest).sids _ _ hsid⟩
    · exact ih (coherent_perform h first) ⟨change, hrest, hchange⟩

/-- **A channel that has been registered is known by one id** under every spelling of its address,
whatever is called after that. -/
theorem exists_knows_run (changes : List Change) (raw : Address)
    (h : ∃ change ∈ changes, Registers raw change) :
    ∃ sid, ∀ more : List Change, ((run {} changes).2.run more).2.Knows raw sid := by
  obtain ⟨sid, hsid⟩ := exists_sidOf?_run coherent_empty h
  refine ⟨sid, fun more => knows_of_sidOf? ?_ ((grows_run _ more).sids _ _ hsid)⟩
  exact (tidy_empty.run coherent_empty changes).run (coherent_run coherent_empty changes) more

end Register

/-- **An address means one channel on every route.** -/
theorem address_means_one_channel :
    (∀ (changes : List Change) (raw : Address),
      (∃ change ∈ changes, Register.Registers raw change) →
        ∃ sid, ∀ more : List Change, ((Register.run {} changes).2.run more).2.Knows raw sid) ∧
    (∀ station channel network location, Address.of station channel network location =
      Address.normalized ⟨station, channel, network, location⟩) ∧
    (∀ json, Snapshot.address? json = (Snapshot.codes? json).map Address.normalized) ∧
    (∀ a : Address, a.normalized.normalized = a.normalized) ∧
    (∀ a b : Address, a.normalized = b.normalized ↔ a.Alike b) ∧
    (∀ (a : Address) (keyword id : String) (more : List String), a.normalized = a → a.Free ' ' →
      Address.Frames keyword id more →
        (∃ c, Command.parse? (a.requestLine keyword id true more) = some c ∧
          c.address? true = some a) ∧
        (a.location = none →
          ∃ c, Command.parse? (a.requestLine keyword id false more) = some c ∧
            c.address? false = some a)) ∧
    ∀ a b : Address, a.Free '$' → b.Free '$' → a.code = b.code → a = b := by
  refine ⟨Register.exists_knows_run, Address.of_eq_normalized, Snapshot.address?_eq,
    Address.normalized_normalized, fun a b => Address.normalized_eq_iff, ?_,
    fun a b => Address.code_injective⟩
  intro a keyword id more hnormalized hfree hframes
  have hlong := Address.address?_requestLine hframes hfree
  rw [hnormalized] at hlong
  refine ⟨hlong, fun hnone => ?_⟩
  have hshort := Address.address?_requestLine_short hframes hfree (by simp [hnone, Address.noLocation])
  rw [hnormalized] at hshort
  exact hshort

/-- A document whose only channel has a placeholder for its location. -/
def placeholderText : String :=
  Json.objectText [("channels", "[" ++
    Json.objectText [("scnl", "[\"AKV\", \"EHZ\", \"AV\", \"--\"]")] ++ "]")]

/-- The channel of the document is known, and is the one on a line with an empty field. -/
theorem address_means_one_channel_placeholder :
    Snapshot.Lists placeholderText ⟨"AKV", "EHZ", "AV", some "--"⟩ ∧
      (∃ sid, ∀ more, ((Register.run {} [.load placeholderText]).2.run more).2.Knows
        ⟨"AKV", "EHZ", "AV", some "--"⟩ sid) ∧
      Address.requestLine "GETSCNL:" "7" ⟨"AKV", "EHZ", "AV", some ""⟩ true ["0", "1", "x"] =
        "GETSCNL: 7 AKV EHZ AV  0 1 x" ∧
      Address.Frames "GETSCNL:" "7" ["0", "1", "x"] := by
  have hlists : Snapshot.Lists placeholderText ⟨"AKV", "EHZ", "AV", some "--"⟩ :=
    ⟨by decide +kernel, [⟨"AKV", "EHZ", "AV", some "--"⟩], by decide +kernel, List.mem_cons_self⟩
  refine ⟨hlists, ?_, by decide +kernel, by decide +kernel, by decide +kernel, by decide +kernel,
    by decide +kernel, ?_⟩
  · exact address_means_one_channel.1 _ _ ⟨_, List.mem_cons_self, .listed hlists⟩
  · exact ⟨by decide +kernel, "x", 'x', rfl, by decide +kernel, by decide, by decide⟩

end Seismic
