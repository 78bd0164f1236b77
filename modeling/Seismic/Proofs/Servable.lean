import Seismic.Proofs.Listed
import Seismic.Proofs.Replies
import Seismic.Proofs.Written

/-!
# Servable — catalogs and requests agree on what can be served

The menu, the channel list and the requests for data each put a channel's coverage through the
policy on their own. They still say the same of every channel: there are two times between which it
can be served, or it cannot be served at all.

* **`Window.Tells`** is what requests on a channel are told, given those two times;
* **`Listings.Tells`** is what the menu and the channel list print of it;
* **`catalogs_agree_with_resolution`**: for every channel both hold of the same times.
-/

namespace Seismic

/-! ## What requests are told -/

namespace Window

/-- Every request in order gets a window if it reaches into the times of `shown`, and is told the
earliest or the latest of these times otherwise. If there are none, it is told of a gap. No time of
`shown` is beyond a limit of the policy. -/
structure Tells (policy : Policy) (now : Time) (coverage shown : Option (Span Time)) : Prop where
  /-- A gap is found by some request in order exactly if there is nothing to show. -/
  gap : shown ≠ none ↔ ∀ requested : Span Time, requested.start.lt requested.stop →
    resolve policy now requested coverage ≠ .error .gap
  earliest : ∀ requested t, resolve policy now requested coverage = .error (.tooEarly t) →
    ∃ latest, shown = some ⟨t, latest⟩
  latest : ∀ requested t, resolve policy now requested coverage = .error (.tooLate t) →
    ∃ earliest, shown = some ⟨earliest, t⟩
  window : ∀ span, shown = some span → ∀ requested : Span Time,
    requested.start.lt requested.stop →
      ((∃ w, resolve policy now requested coverage = .ok w) ↔
        requested.start.le span.stop ∧ span.start.le requested.stop)
  kept : ∀ span, shown = some span → ∀ boundary, policy.retentionBoundary? now = some boundary →
    boundary.isNaN = false → boundary.le span.start ∧ boundary.le span.stop
  released : ∀ span, shown = some span → ∀ edge, policy.embargoEdge? now = some edge →
    edge.isNaN = false → span.start.le edge ∧ span.stop.le edge

section Resolution

variable {policy : Policy} {now : Time} {coverage : Option (Span Time)} {requested : Span Time}

/-- Two spans have a time in common if neither begins behind the end of the other. -/
theorem exists_holds_iff {s t : Span Time} (hs : s.start.le s.stop = true)
    (ht : t.start.le t.stop = true) :
    (∃ u, s.Holds u ∧ t.Holds u) ↔ s.start.le t.stop = true ∧ t.start.le s.stop = true := by
  constructor
  · rintro ⟨u, hu, hu'⟩
    exact ⟨Binary64.le_trans hu.1 hu'.2, Binary64.le_trans hu'.1 hu.2⟩
  · rintro ⟨hst, hts⟩
    obtain ⟨hsn, -⟩ := Binary64.isNaN_of_le hs
    obtain ⟨htn, -⟩ := Binary64.isNaN_of_le ht
    have hmax := Binary64.le_refl (Binary64.isNaN_max hsn t.start)
    -- The later of the two starts is the first time that both hold.
    have hboth := (Binary64.max_le_iff hsn htn _).mp hmax
    refine ⟨s.start.max t.start, ⟨hboth.1, ?_⟩, hboth.2, ?_⟩
    · rw [Binary64.max_le_iff hsn htn]
      exact ⟨hs, hts⟩
    · rw [Binary64.max_le_iff hsn htn]
      exact ⟨hst, ht⟩

/-- A request in order finds a gap exactly if there is nothing to show. -/
theorem resolve_eq_gap_iff (h : requested.start.lt requested.stop = true) :
    resolve policy now requested coverage = .error .gap ↔
      coverage.bind (policy.clampCoverage now) = none := by
  have horder : ¬ requested.stop.le requested.start = true := by
    rw [Binary64.le_eq_false_of_lt h]
    exact Bool.false_ne_true
  unfold resolve
  rw [if_neg horder]
  cases coverage.bind (policy.clampCoverage now) with
  | none => exact iff_of_true rfl rfl
  | some shown =>
    simp only [reduceCtorEq, iff_false]
    split
    · exact nofun
    split
    · exact nofun
    · exact nofun

/-- The times that are told to a request are the two ends. -/
theorem eq_end_of_resolve {f : Failure} (h : resolve policy now requested coverage = .error f) :
    (∀ t, f = .tooEarly t → ∃ latest, coverage.bind (policy.clampCoverage now) = some ⟨t, latest⟩) ∧
      ∀ t, f = .tooLate t →
        ∃ earliest, coverage.bind (policy.clampCoverage now) = some ⟨earliest, t⟩ := by
  -- There are four ways to fail, and two of them tell an end.
  unfold resolve at h
  split at h
  · cases h
    exact ⟨nofun, nofun⟩
  cases hshown : coverage.bind (policy.clampCoverage now) with
  | none =>
    rw [hshown] at h
    cases h
    exact ⟨nofun, nofun⟩
  | some shown =>
    rw [hshown] at h
    simp only at h
    split at h
    · cases h
      exact ⟨fun t ht => Failure.tooEarly.inj ht ▸ ⟨shown.stop, rfl⟩, nofun⟩
    split at h
    · cases h
      exact ⟨nofun, fun t ht => Failure.tooLate.inj ht ▸ ⟨shown.start, rfl⟩⟩
    · cases h

/-- A request in order is served if it reaches into the times that are shown. -/
theorem exists_resolve_eq_ok_iff {span : Span Time}
    (hcoverage : ∀ span, coverage = some span → span.Proper)
    (hshown : coverage.bind (policy.clampCoverage now) = some span)
    (h : requested.start.lt requested.stop = true) :
    (∃ w, resolve policy now requested coverage = .ok w) ↔
      requested.start.le span.stop = true ∧ span.start.le requested.stop = true := by
  obtain ⟨whole, rfl, hclamp⟩ := Option.bind_eq_some_iff.mp hshown
  have horder := Binary64.le_of_lt h
  have hrequested : requested.Proper :=
    ⟨(Binary64.isNaN_of_le horder).1, (Binary64.isNaN_of_le horder).2⟩
  rw [(resolved_resolve policy now hrequested hcoverage).window_iff,
    ← exists_holds_iff horder (clampCoverage_inOrder hclamp)]
  simp only [holds_clampCoverage_iff (hcoverage whole rfl) hclamp, h, true_and]

/-- Both ends are times that the policy admits. -/
theorem within_of_clampCoverage {span : Span Time}
    (hcoverage : ∀ span, coverage = some span → span.Proper)
    (hshown : coverage.bind (policy.clampCoverage now) = some span) :
    span.Proper ∧ policy.Admits now span.start ∧ policy.Admits now span.stop := by
  obtain ⟨whole, rfl, hclamp⟩ := Option.bind_eq_some_iff.mp hshown
  have hshows := holds_clampCoverage_iff (hcoverage whole rfl) hclamp
  have horder := clampCoverage_inOrder hclamp
  obtain ⟨_, _, _, hstart⟩ := (hshows _).mp (Span.isEarliest_start horder).1
  obtain ⟨_, _, _, hstop⟩ := (hshows _).mp (Span.isLatest_stop horder).1
  obtain ⟨hstartNumber, hstopNumber⟩ := Binary64.isNaN_of_le horder
  exact ⟨⟨hstartNumber, hstopNumber⟩, hstart, hstop⟩

/-- **Requests are told the ends of the clamped coverage.** -/
theorem tells_resolve (hcoverage : ∀ span, coverage = some span → span.Proper) :
    Tells policy now coverage (coverage.bind (policy.clampCoverage now)) where
  gap := by
    constructor
    · intro hshown requested h hgap
      exact hshown ((resolve_eq_gap_iff h).mp hgap)
    · -- With nothing to show, every request in order finds a gap, the first second for one.
      intro hnever hnone
      have horder : (⟨0, 1⟩ : Span Time).start.lt (⟨0, 1⟩ : Span Time).stop = true := by
        decide +kernel
      exact hnever ⟨0, 1⟩ horder ((resolve_eq_gap_iff horder).mpr hnone)
  earliest := fun requested t h => (eq_end_of_resolve h).1 t rfl
  latest := fun requested t h => (eq_end_of_resolve h).2 t rfl
  window := fun span hshown requested h => exists_resolve_eq_ok_iff hcoverage hshown h
  kept := fun span hshown boundary hboundary hnumber => by
    obtain ⟨hproper, hstart, hstop⟩ := within_of_clampCoverage hcoverage hshown
    exact ⟨Binary64.le_of_lt_eq_false hnumber hproper.start (hstart.kept boundary hboundary),
      Binary64.le_of_lt_eq_false hnumber hproper.stop (hstop.kept boundary hboundary)⟩
  released := fun span hshown edge hedge hnumber => by
    obtain ⟨hproper, hstart, hstop⟩ := within_of_clampCoverage hcoverage hshown
    exact ⟨Binary64.le_of_lt_eq_false hproper.start hnumber (hstart.released edge hedge),
      Binary64.le_of_lt_eq_false hproper.stop hnumber (hstop.released edge hedge)⟩

end Resolution

end Window

/-! ## What catalogs print -/

namespace Server

/-- The listings of channels that the server keeps and still holds good are the archive's own. An
empty catalog keeps none. -/
structure Fresh (s : Server) : Prop where
  brief : s.seen .brief = s.archive.listings false
  full : s.seen .full = s.archive.listings true

end Server

namespace Listings

theorem result_menu {s : Server} (h : s.access = .ok ()) (id : String) (withLocation : Bool) :
    ((menu id withLocation).on s).1 =
      .ok (.line (menuLine id withLocation (servable s.policy s.clock.now (s.seen .brief)))) :=
  Request.result_menu h id withLocation

/-- Whatever instruments it shows, a channel list shows all channels that are seen. -/
theorem result_channels {s : Server} (h : s.access = .ok ()) (id : String) (verbose : Bool) :
    ∃ instruments, ((channels id verbose).on s).1 =
      .ok (.block id (channelLines s.policy s.clock.now verbose instruments (s.seen .full))) :=
  ⟨s.seen .instruments, Request.result_channels h id verbose⟩

/-- What the catalogs print of the channel at a place of the archive: the menu has an entry with the
two times of `shown`, and the channel list has them in the third and fourth field of the channel's
line. If there are none, the menu has no entry, and both fields are empty. -/
structure Tells (entries : List (Listing × Span Time)) (lines : List String) (place : Nat)
    (c : Channel) (shown : Option (Span Time)) : Prop where
  menu : ∀ span, (∃ l, (l, span) ∈ entries ∧ l.sid = place + 1 ∧ l.channel.address = c.address) ↔
    shown = some span
  list : ∃ earliest latest rest,
    lines[place]? = some (Text.join ':'
      (Numeral.ofNat (place + 1) :: c.address.code :: earliest :: latest :: rest)) ∧
    (earliest ≠ "" ↔ shown ≠ none) ∧ (latest ≠ "" ↔ shown ≠ none) ∧
    ∀ span, shown = some span → earliest = span.start.wireText ∧ latest = span.stop.wireText

theorem mem_servable_iff {policy : Policy} {now : Time} {channels : List Listing} {l : Listing}
    {span : Span Time} :
    (l, span) ∈ servable policy now channels ↔
      l ∈ channels ∧ l.coverage.bind (policy.clampCoverage now) = some span := by
  unfold servable
  rw [List.mem_filterMap]
  constructor
  · rintro ⟨l', hl', h⟩
    obtain ⟨span', hspan', heq⟩ := Option.map_eq_some_iff.mp h
    cases heq
    exact ⟨hl', hspan'⟩
  · rintro ⟨hl, hspan⟩
    refine ⟨l, hl, ?_⟩
    rw [hspan]
    rfl

theorem exists_mem_servable_iff {policy : Policy} {now : Time} {a : Archive} {i : Nat}
    {c : StoredChannel} (h : a.channels[i]? = some c) (span : Span Time) :
    (∃ l, (l, span) ∈ servable policy now (a.listings false) ∧ l.sid = i + 1 ∧
        l.channel.address = c.channel.address) ↔
      c.recording.coverage.bind (policy.clampCoverage now) = some span := by
  -- The menu is made from the brief list, which has the same ids, addresses and coverages.
  simp only [mem_servable_iff, Archive.listings_false, List.mem_map]
  constructor
  · rintro ⟨_, ⟨⟨l, hl, rfl⟩, hspan⟩, hsid, _⟩
    obtain ⟨k, d, hd, rfl⟩ := Archive.mem_listings_iff.mp hl
    have hplace : k = i := Nat.succ.inj hsid
    subst hplace
    rw [h] at hd
    cases hd
    exact hspan
  · intro hspan
    exact ⟨_, ⟨⟨_, Archive.mem_listings_iff.mpr ⟨i, c, h, rfl⟩, rfl⟩, hspan⟩, rfl, rfl⟩

/-- A time is printed if there is one. -/
theorem shown_text_ne_empty_iff {shown : Option (Span Time)} (f : Span Time → Time) :
    (shown.map fun s => (f s).wireText).getD "" ≠ "" ↔ shown ≠ none := by
  cases shown with
  | none => simp
  | some span => exact iff_of_true (Binary64.fixed_ne_empty _) nofun

/-- Verbose or not, a line begins with the same four fields. -/
theorem channelLine_eq_join (verbose : Bool) (instrument : Option Instrument)
    (shown : Option (Span Time)) (l : Listing) :
    ∃ rest, channelLine verbose instrument shown l =
      Text.join ':' (Numeral.ofNat l.sid :: l.channel.address.code ::
        (shown.map fun s => s.start.wireText).getD "" ::
        (shown.map fun s => s.stop.wireText).getD "" :: rest) := by
  unfold channelLine
  cases verbose with
  | false => exact ⟨_, rfl⟩
  | true => exact ⟨_, rfl⟩

/-- **Catalogs print the ends of the clamped coverage.** -/
theorem tells_catalogs {policy : Policy} {now : Time} {a : Archive} {i : Nat} {c : StoredChannel}
    (h : a.channels[i]? = some c) (verbose : Bool) (instruments : List Instrument) :
    Tells (menuOrder (servable policy now (a.listings false)))
      (channelLines policy now verbose instruments (a.listings true)) i c.channel
      (c.recording.coverage.bind (policy.clampCoverage now)) where
  menu := fun span => by
    unfold menuOrder
    simp only [List.mem_mergeSort]
    exact exists_mem_servable_iff h span
  list := by
    obtain ⟨rest, hline⟩ := channelLine_eq_join verbose
      (instrumentOf instruments ⟨i + 1, c.channel, c.recording.coverage⟩)
      (c.recording.coverage.bind (policy.clampCoverage now))
      ⟨i + 1, c.channel, c.recording.coverage⟩
    refine ⟨_, _, rest, ?_, shown_text_ne_empty_iff (·.start), shown_text_ne_empty_iff (·.stop), ?_⟩
    · unfold channelLines
      rw [List.getElem?_map, Archive.listings_getElem?, h]
      exact congrArg some hline
    · intro span hspan
      rw [hspan]
      exact ⟨rfl, rfl⟩

end Listings

/-! ## Agreement -/

/-- **Catalogs and requests agree on what can be served.** A server that has a free slot, an archive
that is online and no outdated listing answers the menu and the channel list. For every channel of
its archive there are two times, or none, which both of them print, and which every request on the
channel is told; and what a request is told is what every verb for data answers. -/
theorem catalogs_agree_with_resolution (s : Server) (haccess : s.access = .ok ()) (hfresh : s.Fresh)
    (id : String) (verbose : Bool) :
    ∃ (entries : List (Listing × Span Time)) (lines : List String),
      (∀ withLocation : Bool, ((Listings.menu id withLocation).on s).1 =
        .ok (.line (id ++ String.join (entries.map (Listings.menuEntry withLocation))))) ∧
      ((Listings.channels id verbose).on s).1 = .ok (.block id lines) ∧
      ∀ (i : Nat) (c : StoredChannel), s.archive.channels[i]? = some c →
        ∃ shown : Option (Span Time),
        Listings.Tells entries lines i c.channel shown ∧
        Window.Tells s.policy s.clock.now (s.archive.coverage (i + 1 : Nat)) shown ∧
        ∀ (request : Request) (data : DataRequest) (framing : Framing) (f : Failure),
          request.dataOf? = some (data, framing) →
          s.archive.sidOf? data.address = some (i + 1) →
          Window.resolve s.policy s.clock.now data.window (s.archive.coverage (i + 1 : Nat)) =
            .error f →
          (request.perform.on s).1 = .ok (Data.failure data framing (i + 1) f) := by
  obtain ⟨instruments, hchannels⟩ := Listings.result_channels haccess id verbose
  rw [hfresh.full] at hchannels
  refine ⟨_, _, fun withLocation => ?_, hchannels, fun i c hc => ⟨_,
    Listings.tells_catalogs hc verbose instruments, ?_, ?_⟩⟩
  · rw [Listings.result_menu haccess, hfresh.brief]
    rfl
  · have hcoverage := Archive.coverage_of_getElem? hc
    rw [← hcoverage]
    exact Window.tells_resolve fun span hspan => proper_of_coverage hspan
  · intro request data framing f hdata hsid hf
    have hlocated : Data.located s data = ⟨i + 1, .error f⟩ := by
      unfold Data.located
      rw [hsid]
      simp only
      rw [hf]
    have hwindow : (Data.located s data).window = .error f := by rw [hlocated]
    rw [Request.result_perform_of_error hdata hwindow, haccess, hlocated]
    rfl

/-- A server that shows a day up to an hour ago. Of the first channel two samples are left, and the
samples of the second are too new. -/
def dayUpToAnHourAgo : Server where
  archive :=
    { channels :=
        [⟨{ address := ⟨"AKV", "EHZ", "AV", none⟩ }, [⟨777599, 1, [1, 2, 3]⟩]⟩,
          ⟨{ address := ⟨"AKV", "EHN", "AV", some "01"⟩ }, [⟨863000, 1, [4, 5]⟩]⟩] }
  policy := ⟨1, 3600⟩
  clock := ⟨⟨947592000, 0⟩, 0⟩

theorem catalogs_agree_dayUpToAnHourAgo :
    dayUpToAnHourAgo.access = .ok () ∧ dayUpToAnHourAgo.Fresh ∧
      ∃ (entries : List (Listing × Span Time)) (lines : List String),
        ((Listings.channels "1" true).on dayUpToAnHourAgo).1 = .ok (.block "1" lines) ∧
        ∀ (i : Nat) (c : StoredChannel), dayUpToAnHourAgo.archive.channels[i]? = some c →
          ∃ shown : Option (Span Time),
            Listings.Tells entries lines i c.channel shown ∧
            Window.Tells ⟨1, 3600⟩ dayUpToAnHourAgo.clock.now
              (dayUpToAnHourAgo.archive.coverage (i + 1 : Nat)) shown := by
  have haccess : dayUpToAnHourAgo.access = .ok () := rfl
  have hfresh : dayUpToAnHourAgo.Fresh := ⟨rfl, rfl⟩
  obtain ⟨entries, lines, -, hlines, hall⟩ :=
    catalogs_agree_with_resolution dayUpToAnHourAgo haccess hfresh "1" true
  refine ⟨haccess, hfresh, entries, lines, hlines, fun i c hc => ?_⟩
  obtain ⟨shown, hcatalogs, hrequests, -⟩ := hall i c hc
  exact ⟨shown, hcatalogs, hrequests⟩

end Seismic
