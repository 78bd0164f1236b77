import Seismic.Proofs.Escaping
import Seismic.Proofs.Replies
import Seismic.Proofs.Tables

/-!
# Records — metadata records round-trip

The server puts what it knows of an instrument or a channel on one line. A client cuts the line into
fields and each field into a key and a value, and whatever characters there are in the keys and the
values, it gets back what the archive has.

* **`Escape.RoundTrips`** is what a client can do with a line that was made of pairs, and
  **`Escape.roundTrips_record`** says that every record allows it;
* **`metadata_records_round_trip`**: so do the records of all instruments and channels, and those are
  the lines that the server answers with.
-/

namespace Seismic

namespace Escape

/-! ## What a client does with a record -/

/-- The part of a field before its first equals sign. -/
def keyOf (field : String) : String := String.ofList (field.toList.takeWhile (· ≠ '='))

/-- The part of a field after its first equals sign. -/
def valueOf (field : String) : String :=
  String.ofList ((field.toList.dropWhile (· ≠ '=')).drop 1)

/-- A client gets the pairs back that a line was made of. -/
structure RoundTrips (line : String) (pairs : List (String × String)) : Prop where
  oneLine : OneLine line
  /-- All of them, in order, each in one field. -/
  fields : splitRecord line = pairs.map fun (key, value) => key ++ "=" ++ value
  /-- Key and value come apart at the first equals sign, if there is none in the key. -/
  halves : ∀ (i : Nat) (key value : String), pairs[i]? = some (key, value) → Lacks '=' key →
    ∃ field, (splitRecord line)[i]? = some field ∧ keyOf field = key ∧ valueOf field = value

/-- The first equals sign of a field is behind its key, if there is none in the key. -/
theorem toList_field_of_lacks {key : String} (h : Lacks '=' key) (value : String) :
    (∀ c ∈ key.toList, decide (c ≠ '=') = true) ∧
      (key ++ "=" ++ value).toList = key.toList ++ '=' :: value.toList := by
  refine ⟨fun c hc => decide_eq_true fun heq => h (heq ▸ hc), ?_⟩
  simp

/-- The part before it is the key, -/
theorem keyOf_of_lacks {key : String} (h : Lacks '=' key) (value : String) :
    keyOf (key ++ "=" ++ value) = key := by
  obtain ⟨hkey, htext⟩ := toList_field_of_lacks h value
  rw [keyOf, htext, List.takeWhile_append_of_pos hkey, List.takeWhile_cons_of_neg (by decide),
    List.append_nil, String.ofList_toList]

/-- and the part after it is the value, whatever other equals signs that has. -/
theorem valueOf_of_lacks {key : String} (h : Lacks '=' key) (value : String) :
    valueOf (key ++ "=" ++ value) = value := by
  obtain ⟨hkey, htext⟩ := toList_field_of_lacks h value
  rw [valueOf, htext, List.dropWhile_append_of_pos hkey, List.dropWhile_cons_of_neg (by decide),
    List.drop_one, List.tail_cons, String.ofList_toList]

/-- The record that is made of some pairs. -/
def ofPairs (pairs : List (String × String)) : String :=
  record (pairs.map fun (key, value) => pair key value)

/-- A written pair is never empty, so no field of such a record is lost. -/
theorem splitRecord_ofPairs (pairs : List (String × String)) :
    splitRecord (ofPairs pairs) = pairs.map fun (key, value) => key ++ "=" ++ value := by
  have hwhole : ∀ text ∈ pairs.map (fun (key, value) => pair key value), Whole text.toList := by
    rw [List.forall_mem_map]
    exact fun p _ => Whole.pair p.1 p.2
  -- Only an empty field at the end could be lost.
  have hlast : (pairs.map fun (key, value) => pair key value).getLast? ≠ some "" := by
    intro hempty
    obtain ⟨p, _, hp⟩ := List.mem_map.mp (List.mem_of_getLast? hempty)
    exact pair_ne_empty p.1 p.2 hp
  rw [ofPairs, splitRecord_record hwhole, if_neg hlast, List.map_map]
  exact List.map_congr_left fun p _ => unescape_pair p.1 p.2

/-- **Every record round-trips.** -/
theorem roundTrips_record (pairs : List (String × String)) : RoundTrips (ofPairs pairs) pairs where
  oneLine := by
    unfold ofPairs
    rw [OneLine.record, List.forall_mem_map]
    exact fun p _ => OneLine.pair p.1 p.2
  fields := splitRecord_ofPairs pairs
  halves := by
    intro i key value hpair hkey
    refine ⟨key ++ "=" ++ value, ?_, keyOf_of_lacks hkey value, valueOf_of_lacks hkey value⟩
    rw [splitRecord_ofPairs, List.getElem?_map, hpair]
    rfl

end Escape

namespace Listings

/-! ## Instruments and channels -/

/-- What the record of an instrument tells: the fixed fields, and the metadata in the order of their
keys. -/
def instrumentPairs (i : Instrument) : List (String × String) :=
  [("name", i.name), ("longitude", i.longitude.fixed), ("latitude", i.latitude.fixed),
    ("height", i.height.fixed), ("timezone", i.timezone.getD "")] ++ i.metadata.entries

/-- What the record of a channel tells. -/
def channelPairs (l : Listing) : List (String × String) :=
  let c := l.channel
  [("sid", Numeral.ofNat l.sid), ("channel", c.address.code), ("instrument", c.instrument.getD ""),
    ("alias", c.otherName.getD ""), ("unit", c.unit.getD ""), ("linearA", c.linearA.fixed),
    ("linearB", c.linearB.fixed), ("groups", Text.join ',' c.groups)] ++ c.metadata.entries

/-- A record is the fixed fields and then the metadata, in one list. -/
theorem instrumentRecord_eq (i : Instrument) :
    instrumentRecord i = Escape.ofPairs (instrumentPairs i) := by
  unfold instrumentRecord instrumentPairs Escape.ofPairs
  rw [List.map_append]
  rfl

theorem channelRecord_eq (l : Listing) : channelRecord l = Escape.ofPairs (channelPairs l) := by
  unfold channelRecord channelPairs Escape.ofPairs
  rw [List.map_append]
  rfl

theorem roundTrips_instrumentRecord (i : Instrument) :
    Escape.RoundTrips (instrumentRecord i) (instrumentPairs i) :=
  instrumentRecord_eq i ▸ Escape.roundTrips_record _

theorem roundTrips_channelRecord (l : Listing) :
    Escape.RoundTrips (channelRecord l) (channelPairs l) :=
  channelRecord_eq l ▸ Escape.roundTrips_record _

end Listings

/-- **Metadata records round-trip.** Whatever texts an instrument or a channel has, its record is on
one line, and a client reads the fixed fields from it and then the metadata in the order of their
keys, where the last value given to a key counts. Records made of any other pairs come apart in the
same way, and those of the instruments and channels are what the server answers with. -/
theorem metadata_records_round_trip :
    (∀ i : Instrument,
      Escape.RoundTrips (Listings.instrumentRecord i) (Listings.instrumentPairs i)) ∧
    (∀ l : Listing, Escape.RoundTrips (Listings.channelRecord l) (Listings.channelPairs l)) ∧
    (∀ given : List (String × String), (Table.ofList given).Sorted ∧
      ∀ key, (Table.ofList given).find? key =
        (given.filter fun entry => entry.1 = key).getLast?.map (·.2)) ∧
    (∀ pairs : List (String × String),
      Escape.splitRecord (Text.join ',' (pairs.map fun (key, value) => Escape.pair key value)) =
        pairs.map fun (key, value) => key ++ "=" ++ value) ∧
    ∀ (s : Server) (id : String), s.access = .ok () →
      ((Listings.records id .instrument).on s).1 =
          .ok (.block id ((s.seen .instruments).map Listings.instrumentRecord)) ∧
        ((Listings.records id .channel).on s).1 =
          .ok (.block id ((s.seen .full).map Listings.channelRecord)) := by
  refine ⟨Listings.roundTrips_instrumentRecord, Listings.roundTrips_channelRecord,
    fun given => ⟨Table.sorted_ofList given, Table.find?_ofList given⟩,
    Escape.splitRecord_ofPairs, fun s id haccess => ⟨?_, ?_⟩⟩
  · exact Request.result_perform haccess (.records id .instrument)
  · exact Request.result_perform haccess (.records id .channel)

end Seismic
