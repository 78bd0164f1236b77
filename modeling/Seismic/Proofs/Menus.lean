import Seismic.Proofs.ByteOrder
import Seismic.Proofs.Dispatch
import Seismic.Proofs.Servable

/-!
# Menus — a menu read back

A menu is one line of tokens. A reader who drops what is empty between two spaces finds the request's
id and then a group of tokens for every channel that has something to show.

* **`Listings.words_menuLine`**: the tokens that a menu is read as;
* **`Shown.ofTokens?_tokens`**: a group tells the channel's id, address and times;
* **`Listings.menuItems_perm`**, **`Listings.menuItems_pairwise`**: the menu has every servable
  channel of the archive once, in the order of the archive codes;
* **`menu_lists_servable`**: so the two kinds of menu list the same channels in the same order, and
  one has a token for the location that the other leaves out.
-/

namespace Seismic

/-! ## Words -/

namespace Text

/-- The fields of a text between spaces without the empty ones. -/
def words (text : String) : List String := (fields ' ' text).filter (· ≠ "")

/-- A space ends a word. -/
theorem words_append_space (first rest : String) :
    words (first ++ " " ++ rest) = words first ++ words rest := by
  have htext : (first ++ " " ++ rest).toList = first.toList ++ ' ' :: rest.toList := by simp
  unfold words fields
  rw [htext, List.splitOn_append_cons_self, List.map_append, List.filter_append]

theorem words_empty : words "" = [] := by decide

/-- A text that is one word. -/
def Word (text : String) : Prop := text ≠ "" ∧ Lacks ' ' text

instance (text : String) : Decidable (Word text) := inferInstanceAs (Decidable (_ ∧ _))

theorem words_of_word {text : String} (h : Word text) : words text = [text] := by
  unfold words
  rw [fields_of_lacks h.2, List.filter_singleton, decide_eq_true h.1, cond_true]

/-- **Joined words come apart again.** -/
theorem words_join {texts : List String} (h : ∀ text ∈ texts, Word text) :
    words (join ' ' texts) = texts := by
  by_cases hne : texts = []
  · rw [hne]
    decide
  · unfold words
    rw [fields_join hne fun text htext => (h text htext).2, List.filter_eq_self]
    exact fun text htext => decide_eq_true (h text htext).1

end Text

open Text (Word words)

theorem Reading.lacks_space_of_id? {line id : String} {request : Request}
    (h : ofLine line = .wellFormed request) (hid : request.id? = some id) : Lacks ' ' id := by
  obtain ⟨c, verb, hparse, -, hrequest⟩ := ofLine_eq_wellFormed h
  obtain ⟨-, -, rfl | ⟨id', hc, hid'⟩⟩ := Request.fits_of_ofCommand? hrequest
  · cases hid
  · rw [hid] at hid'
    cases hid'
    exact Command.lacks_space_of_id? hparse id hc

/-! ## What there is to list -/

/-- Every code of an address is one word. -/
structure Address.Plain (a : Address) : Prop where
  station : Word a.station
  channel : Word a.channel
  network : Word a.network
  location : ∀ location, a.location = some location → Word location

theorem Address.Plain.locationText {a : Address} (h : a.Plain) : Word a.locationText := by
  unfold Address.locationText
  cases hlocation : a.location with
  | none => decide
  | some location => exact h.location location hlocation

/-- A channel with something to show: its id, its address and the times that may be shown. -/
structure MenuItem where
  sid : Nat
  address : Address
  span : Span Time
deriving DecidableEq

/-- The channels of an archive whose coverage the policy leaves something of. -/
def Archive.servable (policy : Policy) (now : Time) (a : Archive) : List MenuItem :=
  a.channels.zipIdx.filterMap fun (c, i) =>
    (c.recording.coverage.bind (policy.clampCoverage now)).map fun span =>
      ⟨i + 1, c.channel.address, span⟩

theorem Archive.mem_servable_iff {policy : Policy} {now : Time} {a : Archive} {item : MenuItem} :
    item ∈ a.servable policy now ↔
      ∃ i c, a.channels[i]? = some c ∧ item.sid = i + 1 ∧ item.address = c.channel.address ∧
        c.recording.coverage.bind (policy.clampCoverage now) = some item.span := by
  unfold servable
  simp only [List.mem_filterMap, Prod.exists, List.mem_zipIdx_iff_getElem?, Option.map_eq_some_iff]
  constructor
  · rintro ⟨c, i, hc, span, hspan, rfl⟩
    exact ⟨i, c, hc, rfl, rfl, hspan⟩
  · rintro ⟨i, c, hc, hsid, haddress, hspan⟩
    refine ⟨c, i, hc, item.span, hspan, ?_⟩
    rw [← hsid, ← haddress]

/-- Every id is listed once at most. -/
theorem Archive.nodup_sid_servable (policy : Policy) (now : Time) (a : Archive) :
    ((a.servable policy now).map (·.sid)).Nodup := by
  have hnodup : (a.channels.zipIdx.map Prod.snd).Nodup := by
    rw [List.zipIdx_map_snd]
    exact List.nodup_range'
  -- Ids are places counted from one, and no place comes up twice.
  have hplaces := List.pairwise_map.mp hnodup
  unfold servable List.Nodup
  rw [List.pairwise_map, List.pairwise_filterMap]
  refine hplaces.imp ?_
  rintro ⟨c, i⟩ ⟨d, j⟩ hne item hitem item' hitem' heq
  obtain ⟨span, -, rfl⟩ := Option.map_eq_some_iff.mp hitem
  obtain ⟨span', -, rfl⟩ := Option.map_eq_some_iff.mp hitem'
  exact hne (Nat.succ.inj heq)

/-! ## Groups -/

namespace MenuItem

/-- The tokens of a channel in a menu. -/
def tokens (withLocation : Bool) (item : MenuItem) : List String :=
  let a := item.address
  [Numeral.ofNat item.sid, a.station, a.channel, a.network]
    ++ (if withLocation then [a.locationText] else [])
    ++ [item.span.start.wireText, item.span.stop.wireText, sampleType]

theorem length_tokens (withLocation : Bool) (item : MenuItem) :
    (item.tokens withLocation).length = if withLocation then 8 else 7 := by
  cases withLocation <;> rfl

theorem eraseIdx_tokens (item : MenuItem) : (item.tokens true).eraseIdx 4 = item.tokens false := rfl

theorem word_ofNat (n : Nat) : Word (Numeral.ofNat n) := by
  refine ⟨?_, Lacks.ofNat (by decide) n⟩
  intro h
  have hdigits : Numeral.digits n = [] := String.ofList_eq_empty_iff.mp h
  exact Nat.toDigits_ne_nil hdigits

theorem word_wireText (t : Time) : Word t.wireText :=
  ⟨Binary64.fixed_ne_empty _, Lacks.fixed (by decide) _⟩

/-- All tokens of a channel in a menu are words. -/
theorem word_of_mem_tokens (withLocation : Bool) {item : MenuItem} (h : item.address.Plain) :
    ∀ token ∈ item.tokens withLocation, Word token := by
  have hs4 : Word sampleType := by decide
  have hfront : ∀ token ∈ [Numeral.ofNat item.sid, item.address.station, item.address.channel,
      item.address.network], Word token := by
    simp only [List.forall_mem_cons]
    exact ⟨word_ofNat _, h.station, h.channel, h.network, List.forall_mem_nil _⟩
  have hback : ∀ token ∈ [item.span.start.wireText, item.span.stop.wireText, sampleType],
      Word token := by
    simp only [List.forall_mem_cons]
    exact ⟨word_wireText _, word_wireText _, hs4, List.forall_mem_nil _⟩
  have hlocation : ∀ token ∈ (if withLocation then [item.address.locationText] else []),
      Word token := by
    split
    · exact List.forall_mem_singleton.mpr h.locationText
    · exact List.forall_mem_nil _
  unfold tokens
  simp only [List.forall_mem_append]
  exact ⟨⟨hfront, hlocation⟩, hback⟩

end MenuItem

/-- What a menu tells of a channel: its id, its address and the texts of its earliest and latest
time. -/
structure Shown where
  sid : Nat
  address : Address
  earliest : String
  latest : String
deriving DecidableEq

namespace Shown

/-- Reads a group of a menu. -/
def ofTokens? : List String → Option Shown
  | [sid, station, channel, network, location, earliest, latest, "s4"] =>
    (Numeral.nat? sid.toList).map fun sid =>
      ⟨sid, .of station channel network (some location), earliest, latest⟩
  | [sid, station, channel, network, earliest, latest, "s4"] =>
    (Numeral.nat? sid.toList).map fun sid =>
      ⟨sid, .ofThree station channel network, earliest, latest⟩
  | _ => none

/-- What a menu with or without locations has to tell of a channel. -/
def ofItem (withLocation : Bool) (item : MenuItem) : Shown :=
  let a := item.address
  ⟨item.sid, if withLocation then a.normalized else .ofThree a.station a.channel a.network,
    item.span.start.wireText, item.span.stop.wireText⟩

/-- **A group of a menu is read back.** -/
theorem ofTokens?_tokens (withLocation : Bool) (item : MenuItem) :
    ofTokens? (item.tokens withLocation) = some (ofItem withLocation item) := by
  have hsid : Numeral.nat? (Numeral.ofNat item.sid).toList = some item.sid := by
    rw [Numeral.ofNat, String.toList_ofList, Numeral.nat?_digits]
  cases withLocation with
  | false =>
    show (Numeral.nat? (Numeral.ofNat item.sid).toList).map _ = _
    rw [hsid]
    rfl
  | true =>
    have haddress : Address.of item.address.station item.address.channel item.address.network
        (some item.address.locationText) = item.address.normalized :=
      Address.of_locationText item.address
    show (Numeral.nat? (Numeral.ofNat item.sid).toList).map _ = _
    rw [hsid, Option.map_some, haddress]
    rfl

end Shown

/-! ## Menus -/

namespace Listings

def itemOf (entry : Listing × Span Time) : MenuItem :=
  ⟨entry.1.sid, entry.1.channel.address, entry.2⟩

theorem menuEntry_eq_join (withLocation : Bool) (entry : Listing × Span Time) :
    menuEntry withLocation entry =
      " " ++ (Text.join ' ' ((itemOf entry).tokens withLocation) ++ " ") := by
  have hspace : String.singleton ' ' = " " := rfl
  obtain ⟨l, span⟩ := entry
  cases withLocation <;>
    simp only [menuEntry, Address.wire, itemOf, MenuItem.tokens, Text.join_cons_cons,
      Text.join_singleton, List.cons_append, List.nil_append, String.append_assoc, hspace,
      Bool.false_eq_true, if_false, if_true]

/-- The words of an entry come off in one piece. -/
theorem words_append_menuEntry (withLocation : Bool) {entry : Listing × Span Time}
    (h : entry.1.channel.address.Plain) (first rest : String) :
    words (first ++ (menuEntry withLocation entry ++ rest)) =
      words first ++ ((itemOf entry).tokens withLocation ++ words rest) := by
  have hwords : ∀ token ∈ (itemOf entry).tokens withLocation, Word token :=
    MenuItem.word_of_mem_tokens withLocation h
  -- The spaces around an entry keep it apart from what is before and behind it.
  have htext : first ++ (menuEntry withLocation entry ++ rest) =
      first ++ " " ++ (Text.join ' ' ((itemOf entry).tokens withLocation) ++ " " ++ rest) := by
    simp only [menuEntry_eq_join, String.append_assoc]
  rw [htext, Text.words_append_space, Text.words_append_space, Text.words_join hwords]

-- By induction on the entries. Each begins and ends with a space, so it comes off in one piece and
-- leaves nothing of itself before the next.
theorem words_menuEntries (withLocation : Bool) {entries : List (Listing × Span Time)}
    (h : ∀ entry ∈ entries, entry.1.channel.address.Plain) (first : String) :
    words (first ++ String.join (entries.map (menuEntry withLocation))) =
      words first ++ (entries.map fun entry => (itemOf entry).tokens withLocation).flatten := by
  induction entries generalizing first with
  | nil =>
    rw [List.map_nil, List.map_nil, List.flatten_nil, List.append_nil, String.join_nil,
      String.append_empty]
  | cons entry rest ih =>
    obtain ⟨hentry, hrest⟩ := List.forall_mem_cons.mp h
    have hih := ih hrest ""
    rw [String.empty_append, Text.words_empty, List.nil_append] at hih
    rw [List.map_cons, String.join_cons, words_append_menuEntry withLocation hentry, hih,
      List.map_cons, List.flatten_cons]

/-- A menu is made from the brief list, whose channels are those of the archive. -/
theorem map_itemOf_servable (policy : Policy) (now : Time) (a : Archive) :
    (servable policy now (a.listings false)).map itemOf = a.servable policy now := by
  unfold servable Archive.servable Archive.listings
  rw [List.map_filterMap, List.filterMap_map]
  simp only [Function.comp_def, Option.map_map]
  rfl

/-- The channels of a menu in its order. -/
def menuItems (policy : Policy) (now : Time) (a : Archive) : List MenuItem :=
  (menuOrder (servable policy now (a.listings false))).map itemOf

theorem menuItems_perm (policy : Policy) (now : Time) (a : Archive) :
    (menuItems policy now a).Perm (a.servable policy now) := by
  rw [← map_itemOf_servable]
  exact (List.mergeSort_perm _ _).map itemOf

/-- A menu is sorted by the archive codes. -/
theorem pairwise_menuOrder (entries : List (Listing × Span Time)) :
    (menuOrder entries).Pairwise fun a b =>
      a.1.channel.address.code ≤ b.1.channel.address.code := by
  have hsorted : (entries.mergeSort fun a b =>
      decide (a.1.channel.address.code ≤ b.1.channel.address.code)).Pairwise fun a b =>
        decide (a.1.channel.address.code ≤ b.1.channel.address.code) = true := by
    refine List.pairwise_mergeSort (fun a b c hab hbc => ?_) (fun a b => ?_) entries
    · rw [decide_eq_true_eq] at hab hbc ⊢
      exact String.le_trans hab hbc
    · rw [Bool.or_eq_true, decide_eq_true_eq, decide_eq_true_eq]
      exact String.le_total _ _
  exact hsorted.imp of_decide_eq_true

theorem menuItems_pairwise (policy : Policy) (now : Time) (a : Archive) :
    (menuItems policy now a).Pairwise fun a b =>
      Utf8.encode a.address.code ≤ Utf8.encode b.address.code :=
  List.pairwise_map.mpr ((pairwise_menuOrder _).imp Utf8.encode_le_encode)

/-- What a reader finds in the menus of an archive, if they have the groups `groups` with locations
and without: the channels `items`, each of them in its own group. -/
structure Reads (policy : Policy) (now : Time) (a : Archive) (items : List MenuItem)
    (groups : Bool → List (List String)) : Prop where
  /-- Every servable channel is listed once, and no other. -/
  once : items.Perm (a.servable policy now)
  distinct : (items.map (·.sid)).Nodup
  /-- The channels are in the order of their archive codes, compared byte by byte. -/
  ordered : items.Pairwise fun a b => Utf8.encode a.address.code ≤ Utf8.encode b.address.code
  size : ∀ withLocation, ∀ group ∈ groups withLocation,
    group.length = if withLocation then 8 else 7
  shown : ∀ withLocation, (groups withLocation).map Shown.ofTokens? =
    items.map fun item => some (Shown.ofItem withLocation item)
  /-- Without its location every group with one is the group without. -/
  column : groups false = (groups true).map (·.eraseIdx 4)

theorem reads_menuItems (policy : Policy) (now : Time) (a : Archive) :
    Reads policy now a (menuItems policy now a) fun withLocation =>
      (menuItems policy now a).map (·.tokens withLocation) where
  once := menuItems_perm policy now a
  distinct :=
    ((menuItems_perm policy now a).map _).nodup_iff.mpr (a.nodup_sid_servable policy now)
  ordered := menuItems_pairwise policy now a
  size := fun withLocation =>
    List.forall_mem_map.mpr fun item _ => item.length_tokens withLocation
  shown := fun withLocation => by
    rw [List.map_map]
    exact List.map_congr_left fun item _ => Shown.ofTokens?_tokens withLocation item
  column := by
    rw [List.map_map]
    exact List.map_congr_left fun item _ => item.eraseIdx_tokens.symm

theorem plain_of_mem_menuOrder {policy : Policy} {now : Time} {a : Archive}
    (h : ∀ c ∈ a.channels, c.channel.address.Plain) {entry : Listing × Span Time}
    (hentry : entry ∈ menuOrder (servable policy now (a.listings false))) :
    entry.1.channel.address.Plain := by
  have hitem : itemOf entry ∈ menuItems policy now a := List.mem_map_of_mem hentry
  obtain ⟨i, c, hc, -, haddress, -⟩ :=
    Archive.mem_servable_iff.mp ((menuItems_perm policy now a).mem_iff.mp hitem)
  show (itemOf entry).address.Plain
  rw [haddress]
  exact h c (List.mem_of_getElem? hc)

/-- **A menu is read as its id and a group for each of its channels.** -/
theorem words_menuLine (policy : Policy) (now : Time) {a : Archive}
    (h : ∀ c ∈ a.channels, c.channel.address.Plain) {id : String} (hid : Word id)
    (withLocation : Bool) :
    words (menuLine id withLocation (servable policy now (a.listings false))) =
      id :: ((menuItems policy now a).map (·.tokens withLocation)).flatten := by
  unfold menuLine menuItems
  -- The id is the first word, and its entries bring a space of their own.
  rw [words_menuEntries withLocation (fun _ => plain_of_mem_menuOrder h), Text.words_of_word hid,
    List.map_map]
  rfl

end Listings

/-- **A menu lists the servable channels.** A server that has a free slot, an archive that is online
and no outdated listing has groups of tokens for its archive. Every menu that it is asked for is read
as the request's id and these groups. -/
theorem menu_lists_servable (s : Server) (haccess : s.access = .ok ())
    (hfresh : s.seen .brief = s.archive.listings false)
    (hplain : ∀ c ∈ s.archive.channels, c.channel.address.Plain) :
    ∃ (items : List MenuItem) (groups : Bool → List (List String)),
      Listings.Reads s.policy s.clock.now s.archive items groups ∧
      ∀ (line id : String) (withLocation : Bool),
        Reading.ofLine line = .wellFormed (.menu id withLocation) → id ≠ "" →
        ∃ text, (s.answer line).1 = .reply (.line text) ∧
          words text = id :: (groups withLocation).flatten := by
  refine ⟨_, _, Listings.reads_menuItems s.policy s.clock.now s.archive, ?_⟩
  intro line id withLocation hline hid
  have hword : Word id := ⟨hid, Reading.lacks_space_of_id? hline rfl⟩
  refine ⟨_, ?_, Listings.words_menuLine s.policy s.clock.now hplain hword withLocation⟩
  rw [Server.answer_of_wellFormed hline, ← hfresh]
  exact congrArg Outcome.ofResult (Listings.result_menu haccess id withLocation)

/-- A server with a channel that has a location, one without samples, and one without a location
whose code comes first. -/
def unsortedChannels : Server where
  archive :=
    { channels :=
        [⟨{ address := ⟨"AKV", "EHZ", "AV", some "01"⟩ }, [⟨1000, 1, [1, 2, 3]⟩]⟩,
          ⟨{ address := ⟨"AKT", "EHZ", "AV", none⟩ }, []⟩,
          ⟨{ address := ⟨"AKS", "EHZ", "AV", none⟩ }, [⟨2000, 1, [4, 5]⟩]⟩] }
  clock := ⟨⟨947592000, 0⟩, 0⟩

theorem menu_unsortedChannels :
    unsortedChannels.access = .ok () ∧
      unsortedChannels.seen .brief = unsortedChannels.archive.listings false ∧
      (∀ c ∈ unsortedChannels.archive.channels, c.channel.address.Plain) ∧
      Reading.ofLine "MENU: 7 SCNL" = .wellFormed (.menu "7" true) ∧
      ∃ (items : List MenuItem) (groups : Bool → List (List String)) (text : String),
        Listings.Reads {} unsortedChannels.clock.now unsortedChannels.archive items groups ∧
        (unsortedChannels.answer "MENU: 7 SCNL").1 = .reply (.line text) ∧
        words text = "7" :: (groups true).flatten := by
  have haccess : unsortedChannels.access = .ok () := rfl
  have hfresh : unsortedChannels.seen .brief = unsortedChannels.archive.listings false := rfl
  have hplain : ∀ c ∈ unsortedChannels.archive.channels, c.channel.address.Plain := by
    simp only [unsortedChannels, List.forall_mem_cons]
    refine ⟨⟨by decide, by decide, by decide, ?_⟩, ⟨by decide, by decide, by decide, nofun⟩,
      ⟨by decide, by decide, by decide, nofun⟩, List.forall_mem_nil _⟩
    rintro location ⟨⟩
    decide
  have hline : Reading.ofLine "MENU: 7 SCNL" = .wellFormed (.menu "7" true) := by decide +kernel
  obtain ⟨items, groups, hreads, hmenus⟩ :=
    menu_lists_servable unsortedChannels haccess hfresh hplain
  obtain ⟨text, hanswer, htext⟩ := hmenus "MENU: 7 SCNL" "7" true hline (by decide)
  exact ⟨haccess, hfresh, hplain, hline, items, groups, text, hreads, hanswer, htext⟩

end Seismic
