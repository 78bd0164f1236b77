import Seismic.Proofs.Evolution

/-!
# Replies — what requests are answered

A request that gets a slot and finds the archive online is answered from what it sees: the policy,
the present, the listings that are kept or else the archive's own, and the archive. How the reply is
come by does not show in it:

* **`Server.Evolves.seen_eq`**: what is seen stays the same while a request is carried out;
* **`Request.result_perform`**: so there is one equation for each verb;
* **`Request.result_perform_of_spared`**, **`result_perform_of_not_spared`**: where the archive lets
  nothing through, just those requests are answered that do not get to it;
* **`Request.eq_reply_of_result`**: so whenever a request is answered, it is with that reply.
-/

namespace Seismic

/-- The listing of a kind that a request sees. -/
def Server.seen {β : Type} (s : Server) (kind : ListingKind β) : List β :=
  (s.catalog.find? kind s.clock.running).getD (kind.query s.archive)

/-- A listing that is fetched on the way is what was seen before. -/
theorem Server.Evolves.seen_eq {parts : List Catalog.Part} {s t : Server} (h : s.Evolves parts t)
    (part : Catalog.Part) : t.seen part.kind = s.seen part.kind := by
  unfold Server.seen
  rw [h.clock, h.query]
  -- What is kept is the same, or was fetched in between from an archive that had the same then.
  rcases h.kept part with hsame | ⟨_, hfetches, _, hlifetime, hkept⟩
  · rw [part.find?_eq_of_kept_eq hsame]
  · have hfresh : s.clock.running < s.clock.running + s.catalog.lifetime := by omega
    rw [part.find?_of_kept hkept hfresh, hfetches.missing]
    rfl

/-- A listing is there for every request that gets to the archive. -/
theorem Action.on_listing_of_access {s : Server} (h : s.access = .ok ()) (part : Catalog.Part) :
    ∃ t, (listing part.kind).on s = (.ok (s.seen part.kind), t) ∧ s.Evolves [part] t := by
  refine ⟨((listing part.kind).on s).2, ?_, (handles_listing (List.mem_singleton_self _) s).evolves⟩
  unfold Server.seen
  cases hfind : s.catalog.find? part.kind s.clock.running with
  | some kept =>
    rw [on_listing_of_kept hfind]
    rfl
  | none =>
    rw [on_listing_of_fetches ⟨h, hfind⟩]
    rfl

/-- A listing that is kept is what is seen, and nothing happens to the server. -/
theorem Action.on_listing_of_found {β : Type} {s : Server} {kind : ListingKind β}
    (h : s.catalog.find? kind s.clock.running ≠ none) :
    (listing kind).on s = (.ok (s.seen kind), s) := by
  obtain ⟨kept, hkept⟩ := Option.ne_none_iff_exists'.mp h
  rw [on_listing_of_kept hkept, Server.seen, hkept]
  rfl

namespace Request

/-- The reply to a request, made of what the server has for it to see. -/
def reply (s : Server) : Request → Reply
  | version => .line ("PROTOCOL_VERSION: " ++ Numeral.ofNat protocolVersion)
  | status id threshold => .block id (Status.lines s threshold (s.seen .brief))
  | menu id withLocation =>
    .line (Listings.menuLine id withLocation
      (Listings.servable s.policy s.clock.now (s.seen .brief)))
  | channels id verbose =>
    .block id (Listings.channelLines s.policy s.clock.now verbose (s.seen .instruments)
      (s.seen .full))
  | records id .instrument => .block id ((s.seen .instruments).map Listings.instrumentRecord)
  | records id .channel => .block id ((s.seen .full).map Listings.channelRecord)
  | samples data withLocation fill =>
    Data.replyTo data (.channel withLocation) (Data.located s data) (Data.foundWave s.archive)
      fun sid wave =>
        .line (Data.sampleLine (Data.header data (.channel withLocation) sid) fill wave)
  | wave data framing compressed =>
    Data.replyTo data framing (Data.located s data) (Data.foundWave s.archive) fun sid wave =>
      .binary (Data.waveHeader data framing sid wave) ⟨Layout.wave wave, compressed⟩
  | helicorder data compressed =>
    Data.replyTo data .idOnly (Data.located s data) (Data.foundHelicorder s.archive) fun sid rows =>
      .binary (Data.header data .idOnly sid) ⟨Layout.helicorder rows, compressed⟩
  | rsam data period compressed =>
    Data.replyTo data .idOnly (Data.located s data)
      (fun sid w => Archive.rsam sid w period s.archive) fun sid rows =>
        .binary (Data.header data .idOnly sid) ⟨Layout.rsam rows, compressed⟩

/-- Requests for data see nothing that is kept, and meet nothing but the archive. -/
theorem result_of_data {request : Request} {data : DataRequest × Framing}
    (hdata : request.dataOf? = some data) (s : Server) :
    (request.perform.on s).1 = s.access.map fun _ => request.reply s := by
  cases request with
  | version | status | menu | channels | records => cases hdata
  | samples data withLocation fill => exact Data.result_samples s data withLocation fill
  | wave data framing compressed => exact Data.result_wave s data framing compressed
  | helicorder data compressed => exact Data.result_helicorder s data compressed
  | rsam data period compressed => exact Data.result_rsam s data period compressed

section Access

variable {s : Server} (h : s.access = .ok ())

include h

theorem result_status (id : String) (threshold : Time) :
    ((Status.reply id threshold).on s).1 =
      .ok (.block id (Status.lines s threshold (s.seen .brief))) := by
  obtain ⟨t, hlisting, hevolves⟩ := Action.on_listing_of_access h .brief
  have hstatus : (Status.reply id threshold).on s = _ := Action.on_bind_of_ok hlisting
  have hlines : Status.lines t threshold (s.seen .brief) =
      Status.lines s threshold (s.seen .brief) := by
    unfold Status.lines
    rw [hevolves.policy, hevolves.clock, hevolves.counters]
  rw [hstatus, Action.on_bind_of_ok (Action.on_read _ _)]
  exact congrArg (fun lines => Except.ok (Reply.block id lines)) hlines

theorem result_menu (id : String) (withLocation : Bool) :
    ((Listings.menu id withLocation).on s).1 =
      .ok (.line (Listings.menuLine id withLocation
        (Listings.servable s.policy s.clock.now (s.seen .brief)))) := by
  obtain ⟨t, hlisting, hevolves⟩ := Action.on_listing_of_access h .brief
  have hmenu : (Listings.menu id withLocation).on s = _ := Action.on_bind_of_ok hlisting
  rw [hmenu, Action.on_bind_of_ok (Action.on_read _ _), hevolves.policy, hevolves.clock]
  rfl

theorem result_channels (id : String) (verbose : Bool) :
    ((Listings.channels id verbose).on s).1 =
      .ok (.block id (Listings.channelLines s.policy s.clock.now verbose (s.seen .instruments)
        (s.seen .full))) := by
  obtain ⟨t, hlisting, hevolves⟩ := Action.on_listing_of_access h .full
  -- The second listing is asked for on the server that the first one has left.
  have haccess : t.access = .ok () := hevolves.access.trans h
  obtain ⟨u, hinstruments, hevolves'⟩ := Action.on_listing_of_access haccess .instruments
  rw [hevolves.seen_eq] at hinstruments
  have hchannels : (Listings.channels id verbose).on s = _ := Action.on_bind_of_ok hlisting
  rw [hchannels]
  refine (congrArg Prod.fst (Action.on_bind_of_ok hinstruments)).trans ?_
  rw [Action.on_bind_of_ok (Action.on_read _ _), hevolves'.policy, hevolves'.clock, hevolves.policy,
    hevolves.clock]
  rfl

/-- **The result of every request that gets to the archive.** -/
theorem result_perform (request : Request) :
    (request.perform.on s).1 = .ok (request.reply s) := by
  cases request with
  | version => rfl
  | status id threshold => exact result_status h id threshold
  | menu id withLocation => exact result_menu h id withLocation
  | channels id verbose => exact result_channels h id verbose
  | records id kind =>
    cases kind with
    | instrument =>
      obtain ⟨t, hlisting, _⟩ := Action.on_listing_of_access h .instruments
      exact congrArg Prod.fst (Action.on_bind_of_ok hlisting)
    | channel =>
      obtain ⟨t, hlisting, _⟩ := Action.on_listing_of_access h .full
      exact congrArg Prod.fst (Action.on_bind_of_ok hlisting)
  | samples | wave | helicorder | rsam =>
    rw [result_of_data rfl, h]
    rfl

end Access

/-! ## Where the archive does not let a request through -/

/-- All listings that a request asks for are kept, and it asks for nothing else, so it does not get
to the archive. -/
structure Spared (s : Server) (request : Request) : Prop where
  listings : ∀ part ∈ request.parts, s.catalog.find? part.kind s.clock.running ≠ none
  data : request.dataOf? = none

theorem result_perform_of_spared {s : Server} {request : Request} (h : request.Spared s) :
    (request.perform.on s).1 = .ok (request.reply s) := by
  obtain ⟨hlistings, hdata⟩ := h
  -- The listings are found one after the other, and none changes the server for the next.
  cases request with
  | version => rfl
  | status id threshold | menu id withLocation =>
    have hbrief := Action.on_listing_of_found (hlistings .brief (List.mem_singleton_self _))
    exact congrArg Prod.fst (Action.on_bind_of_ok hbrief)
  | channels id verbose =>
    have hfull := Action.on_listing_of_found (hlistings .full List.mem_cons_self)
    have hinstruments := Action.on_listing_of_found
      (hlistings .instruments (List.mem_cons_of_mem _ List.mem_cons_self))
    refine (congrArg Prod.fst (Action.on_bind_of_ok hfull)).trans ?_
    exact congrArg Prod.fst (Action.on_bind_of_ok hinstruments)
  | records id kind =>
    cases kind with
    | instrument =>
      have hlisting := Action.on_listing_of_found (hlistings .instruments (List.mem_singleton_self _))
      exact congrArg Prod.fst (Action.on_bind_of_ok hlisting)
    | channel =>
      have hlisting := Action.on_listing_of_found (hlistings .full (List.mem_singleton_self _))
      exact congrArg Prod.fst (Action.on_bind_of_ok hlisting)
  | samples | wave | helicorder | rsam => cases hdata

/-- Where the archive lets nothing through, every request halts that gets to it. -/
theorem result_perform_of_not_spared {s : Server} {halt : Halt} (haccess : s.access = .error halt)
    {request : Request} (h : ¬ request.Spared s) : (request.perform.on s).1 = .error halt := by
  have hlisting (part : Catalog.Part) (hnone : s.catalog.find? part.kind s.clock.running = none) :
      ((Action.listing part.kind).on s).1 = .error halt :=
    congrArg Prod.fst (Action.on_listing_of_error hnone haccess)
  -- One of the listings is not kept, since the request asks for nothing else.
  have hmissing (hdata : request.dataOf? = none) :
      ∃ part ∈ request.parts, s.catalog.find? part.kind s.clock.running = none := by
    by_contra hnone
    simp only [not_exists, not_and] at hnone
    exact h ⟨hnone, hdata⟩
  cases request with
  | version => exact absurd ⟨fun _ hmem => absurd hmem List.not_mem_nil, rfl⟩ h
  | status id threshold | menu id withLocation =>
    obtain ⟨part, hpart, hnone⟩ := hmissing rfl
    obtain rfl := List.mem_singleton.mp hpart
    exact Action.result_bind_of_error (hlisting _ hnone)
  | channels id verbose =>
    -- The list of channels asks for two listings, and halts at the first that is missing.
    by_cases hfull : s.catalog.find? .full s.clock.running = none
    · exact Action.result_bind_of_error (hlisting .full hfull)
    · obtain ⟨part, hpart, hnone⟩ := hmissing rfl
      rcases List.mem_cons.mp hpart with rfl | hpart
      · exact absurd hnone hfull
      · obtain rfl := List.mem_singleton.mp hpart
        refine (congrArg Prod.fst (Action.on_bind_of_ok (Action.on_listing_of_found hfull))).trans ?_
        exact Action.result_bind_of_error (hlisting _ hnone)
  | records id kind =>
    obtain ⟨part, hpart, hnone⟩ := hmissing rfl
    cases kind with
    | instrument | channel =>
      obtain rfl := List.mem_singleton.mp hpart
      exact Action.result_bind_of_error (hlisting _ hnone)
  | samples | wave | helicorder | rsam =>
    rw [result_of_data rfl, haccess]
    rfl

/-- **A request that is answered gets its reply**, whether or not it got to the archive. -/
theorem eq_reply_of_result {s : Server} {request : Request} {r : Reply}
    (h : (request.perform.on s).1 = .ok r) : r = request.reply s := by
  have hreply : (request.perform.on s).1 = .ok (request.reply s) := by
    cases haccess : s.access with
    | ok _ => exact result_perform haccess request
    | error halt =>
      by_cases hspared : request.Spared s
      · exact result_perform_of_spared hspared
      · rw [result_perform_of_not_spared haccess hspared] at h
        cases h
  rw [hreply] at h
  exact (Except.ok.inj h).symm

end Request

/-- So a line that makes a request is answered with the reply to it, if with any. -/
theorem Server.eq_reply_of_answer {s : Server} {line : String} {request : Request} {r : Reply}
    (hline : Reading.ofLine line = .wellFormed request) (h : (s.answer line).1 = .reply r) :
    r = request.reply s := by
  rw [answer_of_wellFormed hline] at h
  exact Request.eq_reply_of_result (Outcome.eq_ok_of_ofResult h)

end Seismic
