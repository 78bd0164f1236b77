import Seismic.Proofs.Serving
import Seismic.Server.Session

/-!
# Evolution — what a request does to the server

A verb looks at the server, asks for listings, and works on the archive while it holds a slot. It
does nothing else, whatever it answers. So what a request can do to the server is said once, for
everything that is made of these steps:

* **`Action.Inside`** and **`Action.Outside`** are what is done with a slot and without one, and
  **`Request.outside_perform`** says that every verb is made of such steps;
* **`Server.Evolves`** is all that a verb can do to a server: ask the archive, and keep listings that
  it has just fetched;
* **`Action.Outside.handles`**: so it leaves all slots where they are, and it waits only if there is
  none that is free.
-/

namespace Seismic

/-! ## Parts of a catalog -/

namespace Catalog.Part

/-- All parts of a catalog. -/
def all : List Part := [.brief, .full, .instruments]

variable (part : Part)

theorem mem_all : part ∈ all := by
  cases part with
  | brief | full | instruments => decide

/-- No listing shows how often the archive has been asked. -/
theorem query_eq (a : Archive) (queries : Nat) :
    part.kind.query { a with queries := queries } = part.kind.query a := by
  cases part with
  | brief | full | instruments => rfl

theorem lifetime_keep (c : Catalog) (running : Nat) (listing : List part.Entry) :
    (c.keep part.kind running listing).lifetime = c.lifetime := by
  unfold keep
  split
  · rfl
  · cases part with
    | brief | full | instruments => rfl

/-- What is kept is good for a lifetime from now. -/
theorem kept_keep {c : Catalog} (h : c.lifetime ≠ 0) (running : Nat) (listing : List part.Entry) :
    part.kind.kept (c.keep part.kind running listing) = some ⟨listing, running + c.lifetime⟩ := by
  unfold keep
  rw [if_neg h]
  cases part with
  | brief | full | instruments => rfl

/-- Keeping a listing leaves the other parts alone. -/
theorem kept_keep_of_ne {other : Part} (h : other ≠ part) (c : Catalog) (running : Nat)
    (listing : List part.Entry) :
    other.kind.kept (c.keep part.kind running listing) = other.kind.kept c := by
  unfold keep
  split
  · rfl
  · cases part with
    | brief =>
      cases other with
      | brief => exact absurd rfl h
      | full | instruments => rfl
    | full =>
      cases other with
      | full => exact absurd rfl h
      | brief | instruments => rfl
    | instruments =>
      cases other with
      | instruments => exact absurd rfl h
      | brief | full => rfl

theorem find?_eq_of_kept_eq {c c' : Catalog} (h : part.kind.kept c = part.kind.kept c')
    (running : Nat) : c.find? part.kind running = c'.find? part.kind running := by
  unfold find?
  rw [h]

/-- A kept listing is found as long as it has not expired. -/
theorem find?_of_kept {c : Catalog} {running : Nat} {k : Kept part.Entry}
    (hkept : part.kind.kept c = some k) (hfresh : running < k.expires) :
    c.find? part.kind running = some k.listing := by
  unfold find?
  simp only [hkept, Option.filter_some, hfresh, decide_true, if_true, Option.map_some]

theorem exists_kept_of_find? {c : Catalog} {running : Nat} {listing : List part.Entry}
    (h : c.find? part.kind running = some listing) :
    ∃ k, part.kind.kept c = some k ∧ k.listing = listing ∧ running < k.expires := by
  obtain ⟨k, hk, hlisting⟩ := Option.map_eq_some_iff.mp h
  obtain ⟨hkept, hfresh⟩ := Option.filter_eq_some_iff.mp hk
  exact ⟨k, hkept, hlisting, of_decide_eq_true hfresh⟩

end Catalog.Part

/-! ## Slots -/

namespace Pool

/-- There is a slot for the next request. -/
def Ready (p : Pool) : Prop := p.closed = false ∧ 0 < p.free

theorem acquire_of_closed {p : Pool} (h : p.closed = true) : p.acquire = .error .closed := by
  unfold acquire
  rw [if_pos h]

theorem exists_acquire_iff {p : Pool} : (∃ q, p.acquire = .ok q) ↔ p.Ready := by
  unfold acquire Ready
  cases p.closed with
  | true => exact iff_of_false nofun nofun
  | false =>
    by_cases hfree : p.free = 0
    · simp only [hfree, Bool.false_eq_true, if_false, if_true]
      exact iff_of_false nofun (fun h => absurd h.2 (Nat.lt_irrefl 0))
    · simp only [hfree, Bool.false_eq_true, if_false]
      exact iff_of_true ⟨_, rfl⟩ ⟨trivial, Nat.pos_of_ne_zero hfree⟩

/-- A slot that is taken and given back leaves the pool as it was. -/
theorem release_of_acquire {p q : Pool} (h : p.acquire = .ok q) : q.release = p := by
  unfold acquire at h
  split at h
  · cases h
  split at h
  · cases h
  · next hfree =>
    cases h
    -- Taking a slot needs one that is free, so what is subtracted is added again.
    have hback : p.free - 1 + 1 = p.free := by omega
    simp only [release, hback]

end Pool

namespace Server

/-- A request gets through to the archive with a slot, and if the archive can be reached. -/
theorem access_eq_ok_iff {s : Server} :
    s.access = .ok () ↔ (∃ pool, s.pool.acquire = .ok pool) ∧ s.archive.online = true := by
  unfold access
  rcases s.pool.acquire with (_ | _) | pool
  · exact iff_of_false nofun nofun
  · exact iff_of_false nofun nofun
  · cases s.archive.online with
    | false => exact iff_of_false nofun nofun
    | true => exact iff_of_true rfl ⟨⟨pool, rfl⟩, rfl⟩

end Server

/-! ## Steps -/

namespace Action

/-- What is done while a slot is held: looking at the server and asking the archive. -/
inductive Inside : {β : Type} → Action β → Prop
  | pure {β : Type} (v : β) : Inside (Pure.pure v : Action β)
  | read {β : Type} (f : Server → β) : Inside (Action.read f)
  | ask {β : Type} (query : Archive → β) : Inside (Action.ask query)
  | bind {β γ : Type} {act : Action β} {next : β → Action γ} (hact : Inside act)
      (hnext : ∀ v, Inside (next v)) : Inside (act >>= next)

/-- What a verb is made of: looking at the server, asking for listings of the given parts, and taking
a slot, but never a second one. -/
inductive Outside (parts : List Catalog.Part) : {β : Type} → Action β → Prop
  | pure {β : Type} (v : β) : Outside parts (Pure.pure v : Action β)
  | read {β : Type} (f : Server → β) : Outside parts (Action.read f)
  | listing (part : Catalog.Part) (hpart : part ∈ parts) : Outside parts (Action.listing part.kind)
  | withSlot {β : Type} {act : Action β} (hact : Inside act) : Outside parts (Action.withSlot act)
  | bind {β γ : Type} {act : Action β} {next : β → Action γ} (hact : Outside parts act)
      (hnext : ∀ v, Outside parts (next v)) : Outside parts (act >>= next)

end Action

namespace Data

open Seismic.Action

/-- A channel and its window are looked for in the archive alone. -/
theorem inside_locate (policy : Policy) (now : Time) (address : Address) (window : Span Time) :
    Inside (locate policy now address window) := by
  refine .bind (.ask _) fun sid? => ?_
  cases sid? with
  | none => exact .pure _
  | some sid => exact .bind (.ask _) fun coverage => .pure _

/-- The verbs for data take one slot and do all their work with it. -/
theorem outside_serve {β : Type} {parts : List Catalog.Part} (data : DataRequest)
    (framing : Framing) {fetch : Nat → Span Time → Action (Option β)} (reply : Nat → β → Reply)
    (hfetch : ∀ sid w, Inside (fetch sid w)) : Outside parts (serve data framing fetch reply) := by
  refine .withSlot (.bind (.read _) fun policy => .bind (.read _) fun now => ?_)
  refine .bind (inside_locate policy now data.address data.window) fun located => ?_
  cases located.window with
  | error f => exact .pure _
  | ok w =>
    refine .bind (hfetch located.sid w) fun product => ?_
    cases product with
    | none => exact .pure _
    | some product => exact .pure _

end Data

namespace Request

open Seismic.Action

/-- The listings that a request asks for. -/
def parts : Request → List Catalog.Part
  | status _ _ | menu _ _ => [.brief]
  | channels _ _ => [.full, .instruments]
  | records _ .instrument => [.instruments]
  | records _ .channel => [.full]
  | _ => []

/-- **Every verb is made of such steps.** -/
theorem outside_perform (request : Request) : Outside request.parts request.perform := by
  have hwave (sid : Nat) (w : Span Time) : Inside (Data.fetchWave sid w) :=
    .bind (.ask _) fun wave => .pure _
  -- Verb by verb: the steps stand in the order in which the verb takes them.
  cases request with
  | version => exact .pure _
  | status id threshold =>
    have hpart : Catalog.Part.brief ∈ (status id threshold).parts := List.mem_singleton_self _
    exact .bind (.listing .brief hpart) fun channels => .bind (.read _) fun lines => .pure _
  | menu id withLocation =>
    have hpart : Catalog.Part.brief ∈ (menu id withLocation).parts := List.mem_singleton_self _
    exact .bind (.listing .brief hpart) fun channels => .bind (.read _) fun entries => .pure _
  | channels id verbose =>
    have hfull : Catalog.Part.full ∈ (channels id verbose).parts := List.mem_cons_self
    have hinstruments : Catalog.Part.instruments ∈ (channels id verbose).parts :=
      List.mem_cons_of_mem _ List.mem_cons_self
    exact .bind (.listing .full hfull) fun listings =>
      .bind (.listing .instruments hinstruments) fun instruments =>
        .bind (.read _) fun lines => .pure _
  | records id kind =>
    cases kind with
    | instrument =>
      have hpart : Catalog.Part.instruments ∈ (records id .instrument).parts :=
        List.mem_singleton_self _
      exact .bind (.listing .instruments hpart) fun instruments => .pure _
    | channel =>
      have hpart : Catalog.Part.full ∈ (records id .channel).parts := List.mem_singleton_self _
      exact .bind (.listing .full hpart) fun channels => .pure _
  | samples data withLocation fill =>
    unfold perform Data.samples
    exact Data.outside_serve data (.channel withLocation) _ hwave
  | wave data framing compressed =>
    unfold perform Data.wave
    exact Data.outside_serve data framing _ hwave
  | helicorder data compressed =>
    unfold perform Data.helicorder
    exact Data.outside_serve data .idOnly _ fun sid w => .ask _
  | rsam data period compressed =>
    unfold perform Data.rsam
    exact Data.outside_serve data .idOnly _ fun sid w => .ask _

end Request

/-! ## What the steps do -/

namespace Server

/-- A listing that is asked for now is fetched from the archive, which lets the request through. -/
structure Fetches {β : Type} (s : Server) (kind : ListingKind β) : Prop where
  access : s.access = .ok ()
  missing : s.catalog.find? kind s.clock.running = none

/-- All that a verb can do to a server: ask the archive, and keep listings that it has fetched. -/
structure Evolves (parts : List Catalog.Part) (s t : Server) : Prop where
  pool : t.pool = s.pool
  policy : t.policy = s.policy
  counters : t.counters = s.counters
  clock : t.clock = s.clock
  archive : t.archive = { s.archive with queries := t.archive.queries }
  queries : s.archive.queries ≤ t.archive.queries
  lifetime : t.catalog.lifetime = s.catalog.lifetime
  kept : ∀ part, part.kind.kept t.catalog = part.kind.kept s.catalog ∨
    part ∈ parts ∧ s.Fetches part.kind ∧ s.archive.queries < t.archive.queries ∧
      s.catalog.lifetime ≠ 0 ∧
      part.kind.kept t.catalog =
        some ⟨part.kind.query s.archive, s.clock.running + s.catalog.lifetime⟩

namespace Evolves

variable {parts : List Catalog.Part} {s t u : Server}

theorem refl (s : Server) : s.Evolves parts s :=
  ⟨rfl, rfl, rfl, rfl, rfl, Nat.le_refl _, rfl, fun _ => .inl rfl⟩

theorem working (s : Server) {queries : Nat} (h : s.archive.queries ≤ queries) :
    s.Evolves parts (s.working s.pool queries) :=
  ⟨rfl, rfl, rfl, rfl, rfl, h, rfl, fun _ => .inl rfl⟩

theorem access (h : s.Evolves parts t) : t.access = s.access := by
  unfold Server.access
  rw [h.pool, h.archive]

theorem query (h : s.Evolves parts t) (part : Catalog.Part) :
    part.kind.query t.archive = part.kind.query s.archive := by
  rw [h.archive, part.query_eq]

theorem mono {parts' : List Catalog.Part} (h : s.Evolves parts t)
    (hparts : ∀ part ∈ parts, part ∈ parts') : s.Evolves parts' t where
  pool := h.pool
  policy := h.policy
  counters := h.counters
  clock := h.clock
  archive := h.archive
  queries := h.queries
  lifetime := h.lifetime
  kept := fun part => (h.kept part).imp_right (And.imp_left (hparts part))

/-- The counters have no part in it. -/
theorem recount (h : s.Evolves parts t) (counters : Counters) :
    { s with counters := counters }.Evolves parts { t with counters := counters } where
  pool := h.pool
  policy := h.policy
  counters := rfl
  clock := h.clock
  archive := h.archive
  queries := h.queries
  lifetime := h.lifetime
  kept := fun part => (h.kept part).imp_right fun ⟨hpart, hfetches, hkept⟩ =>
    ⟨hpart, ⟨hfetches.access, hfetches.missing⟩, hkept⟩

/-- **What was fetched once is not fetched again.** A listing that the second step fetches cannot have
been kept by the first, which would still be good. -/
theorem trans (h : s.Evolves parts t) (h' : t.Evolves parts u) : s.Evolves parts u where
  pool := h'.pool.trans h.pool
  policy := h'.policy.trans h.policy
  counters := h'.counters.trans h.counters
  clock := h'.clock.trans h.clock
  archive := by
    have harchive := h'.archive
    rw [h.archive] at harchive
    exact harchive
  queries := Nat.le_trans h.queries h'.queries
  lifetime := h'.lifetime.trans h.lifetime
  kept := by
    intro part
    -- What a part holds in the end comes from the second step, from the first, or was there before.
    rcases h'.kept part with hsame' | ⟨hpart, hfetches, hcounted, hlifetime, hkept⟩
    · rcases h.kept part with hsame | ⟨hpart, hfetches, hcounted, hlifetime, hkept⟩
      · exact .inl (hsame'.trans hsame)
      · have hlater := Nat.lt_of_lt_of_le hcounted h'.queries
        exact .inr ⟨hpart, hfetches, hlater, hlifetime, hsame'.trans hkept⟩
    · rw [h.lifetime] at hlifetime hkept
      rw [h.query, h.clock] at hkept
      have hmissing := hfetches.missing
      rw [h.clock] at hmissing
      rcases h.kept part with hsame | ⟨_, _, _, _, hkept'⟩
      · have hsame' := part.find?_eq_of_kept_eq hsame s.clock.running
        have haccess : s.access = .ok () := h.access ▸ hfetches.access
        have hlater := Nat.lt_of_le_of_lt h.queries hcounted
        exact .inr ⟨hpart, ⟨haccess, hsame'.symm.trans hmissing⟩, hlater, hlifetime, hkept⟩
      · have hfresh : s.clock.running < s.clock.running + s.catalog.lifetime := by omega
        rw [part.find?_of_kept hkept' hfresh] at hmissing
        cases hmissing

end Evolves

/-- A run of a verb on a server: it only evolves the server, it waits only if no slot is free, and
once the pool is closed it changes nothing. -/
structure Handles {β : Type} (parts : List Catalog.Part) (s : Server)
    (run : Except Halt β × Server) : Prop where
  evolves : s.Evolves parts run.2
  ready : s.pool.Ready → run.1 ≠ .error .waiting
  closed : s.pool.closed = true → run.2 = s ∧ run.1 ≠ .error .waiting

end Server

namespace Action

variable {β γ : Type} {parts : List Catalog.Part} {act : Action β}

/-- With a slot only queries are made, and only the archive can halt them. -/
theorem Inside.run (h : Inside act) (s : Server) :
    ∃ queries, s.archive.queries ≤ queries ∧ (act.on s).2 = s.working s.pool queries ∧
      (act.on s).1 ≠ .error .waiting := by
  -- By induction on the steps: the pool is the one taken along, and the number of queries only
  -- grows, so it is the same for two steps in a row.
  induction h generalizing s with
  | pure v => exact ⟨_, Nat.le_refl _, rfl, nofun⟩
  | read f => exact ⟨_, Nat.le_refl _, rfl, nofun⟩
  | ask query =>
    refine ⟨s.archive.queries + 1, Nat.le_succ _, ?_, ?_⟩
    · rw [on_ask]
      rfl
    · rw [on_ask]
      cases s.archive.online with
      | true => exact nofun
      | false => exact nofun
  | @bind β γ act next hact hnext ihact ihnext =>
    obtain ⟨first, hfirst, hafter, hwaits⟩ := ihact s
    rw [on_bind]
    rcases hrun : act.on s with ⟨halt | v, between⟩
    · rw [hrun] at hafter hwaits
      refine ⟨first, hfirst, hafter, ?_⟩
      intro hwaiting
      cases hwaiting
      exact hwaits rfl
    · rw [hrun] at hafter
      obtain ⟨second, hsecond, hafter', hwaits'⟩ := ihnext v between
      have hbetween : between = s.working s.pool first := hafter
      subst hbetween
      exact ⟨second, Nat.le_trans hfirst hsecond, hafter', hwaits'⟩

theorem on_withSlot_of_closed {s : Server} (h : s.pool.closed = true) (act : Action β) :
    (withSlot act).on s = (.error (.failed .closed), s) := by
  rw [on_withSlot, Pool.acquire_of_closed h]

theorem handles_withSlot (h : Inside act) (s : Server) :
    s.Handles parts ((withSlot act).on s) := by
  rw [on_withSlot]
  -- Without a slot nothing is done; with one, what is done inside leaves the pool alone, and so the
  -- slot is back.
  cases hpool : s.pool.acquire with
  | error reason =>
    have hnone : ¬ s.pool.Ready := by
      rw [← Pool.exists_acquire_iff, hpool]
      exact nofun
    cases reason with
    | closed => exact ⟨.refl s, fun hready => absurd hready hnone, fun _ => ⟨rfl, nofun⟩⟩
    | exhausted =>
      have hopen (hclosed : s.pool.closed = true) : False := by
        rw [Pool.acquire_of_closed hclosed] at hpool
        cases hpool
      exact ⟨.refl s, fun hready => absurd hready hnone, fun hclosed => (hopen hclosed).elim⟩
  | ok pool =>
    obtain ⟨queries, hqueries, hafter, hwaits⟩ := h.run { s with pool := pool }
    have hback : ({ (act.on { s with pool := pool }).2 with
        pool := (act.on { s with pool := pool }).2.pool.release } : Server) =
          s.working s.pool queries := by
      rw [hafter]
      show s.working pool.release queries = s.working s.pool queries
      rw [Pool.release_of_acquire hpool]
    simp only
    rw [hback]
    refine ⟨.working s hqueries, fun _ => hwaits, fun hclosed => ?_⟩
    rw [Pool.acquire_of_closed hclosed] at hpool
    cases hpool

/-! ## Listings -/

section Listing

variable {s : Server}

/-- A listing that is kept is given as it is, and nothing else happens. -/
theorem on_listing_of_kept {kind : ListingKind β} {kept : List β}
    (h : s.catalog.find? kind s.clock.running = some kept) :
    (listing kind).on s = (.ok kept, s) := by
  unfold listing
  rw [on_bind_of_ok (on_read _ _), h]
  rfl

theorem on_fetch_of_ok (h : s.access = .ok ()) (query : Archive → β) :
    (withSlot (ask query)).on s =
      (.ok (query s.archive), s.working s.pool (s.archive.queries + 1)) := by
  obtain ⟨⟨pool, hpool⟩, honline⟩ := Server.access_eq_ok_iff.mp h
  rw [on_withSlot, hpool]
  simp only [on_ask, honline, if_true, Pool.release_of_acquire hpool]
  rfl

theorem on_fetch_of_error {halt : Halt} (h : s.access = .error halt) (query : Archive → β) :
    ((withSlot (ask query)).on s).1 = .error halt := by
  unfold Server.access at h
  rw [on_withSlot]
  -- Access was refused for the pool or for the archive, and a query is refused for the same.
  rcases hpool : s.pool.acquire with (_ | _) | pool
  · rw [hpool] at h
    cases h
    rfl
  · rw [hpool] at h
    cases h
    rfl
  · rw [hpool] at h
    simp only [on_ask]
    cases honline : s.archive.online with
    | true =>
      rw [honline] at h
      cases h
    | false =>
      rw [honline] at h
      cases h
      rfl

/-- A listing that is not kept is fetched. -/
theorem on_listing_of_missing {kind : ListingKind β}
    (h : s.catalog.find? kind s.clock.running = none) :
    (listing kind).on s = (do
      let fresh ← withSlot (ask kind.query)
      change fun s => { s with catalog := s.catalog.keep kind s.clock.running fresh }
      return fresh : Action (List β)).on s := by
  unfold listing
  rw [on_bind_of_ok (on_read _ _), h]

theorem on_listing_of_fetches {kind : ListingKind β} (h : s.Fetches kind) :
    (listing kind).on s =
      (.ok (kind.query s.archive),
        { s.working s.pool (s.archive.queries + 1) with
          catalog := s.catalog.keep kind s.clock.running (kind.query s.archive) }) := by
  rw [on_listing_of_missing h.missing, on_bind_of_ok (on_fetch_of_ok h.access kind.query)]
  rfl

/-- Where the archive does not let a request through, what was kept stays as it was. -/
theorem on_listing_of_error {kind : ListingKind β} {halt : Halt}
    (hmissing : s.catalog.find? kind s.clock.running = none) (h : s.access = .error halt) :
    (listing kind).on s = (.error halt, ((withSlot (ask kind.query)).on s).2) := by
  have hfetch : (withSlot (ask kind.query)).on s =
      (.error halt, ((withSlot (ask kind.query)).on s).2) :=
    Prod.ext (on_fetch_of_error h kind.query) rfl
  rw [on_listing_of_missing hmissing, on_bind, hfetch]

theorem handles_listing {part : Catalog.Part} (hpart : part ∈ parts) (s : Server) :
    s.Handles parts ((listing part.kind).on s) := by
  -- A listing that is kept takes no slot. One that is fetched is kept, unless nothing ever is.
  cases hfind : s.catalog.find? part.kind s.clock.running with
  | some kept =>
    rw [on_listing_of_kept hfind]
    exact ⟨.refl s, fun _ => nofun, fun _ => ⟨rfl, nofun⟩⟩
  | none =>
    have hfetch : s.Handles parts ((withSlot (ask part.kind.query)).on s) :=
      handles_withSlot (.ask _) s
    cases haccess : s.access with
    | error halt =>
      have hresult := on_fetch_of_error haccess part.kind.query
      rw [on_listing_of_error hfind haccess]
      refine ⟨hfetch.evolves, fun hready => ?_, fun hclosed => ?_⟩
      · exact hresult ▸ hfetch.ready hready
      · exact hresult ▸ hfetch.closed hclosed
    | ok _ =>
      have hfetches : s.Fetches part.kind := ⟨haccess, hfind⟩
      rw [on_listing_of_fetches hfetches]
      refine ⟨⟨rfl, rfl, rfl, rfl, rfl, Nat.le_succ _, part.lifetime_keep _ _ _, ?_⟩, fun _ => nofun,
        fun hclosed => ?_⟩
      · intro other
        by_cases hsame : other = part
        · subst hsame
          by_cases hlifetime : s.catalog.lifetime = 0
          · refine .inl ?_
            unfold Catalog.keep
            rw [if_pos hlifetime]
          · have hcounted := Nat.lt_succ_self s.archive.queries
            exact .inr ⟨hpart, hfetches, hcounted, hlifetime, other.kept_keep hlifetime _ _⟩
        · exact .inl (part.kept_keep_of_ne hsame _ _ _)
      · obtain ⟨⟨pool, hpool⟩, _⟩ := Server.access_eq_ok_iff.mp haccess
        rw [Pool.acquire_of_closed hclosed] at hpool
        cases hpool

end Listing

/-- **What a verb does to a server**, whatever it is made of. -/
theorem Outside.handles (h : Outside parts act) (s : Server) : s.Handles parts (act.on s) := by
  -- By induction on the steps, of which only a pair needs both its halves.
  induction h generalizing s with
  | pure v => exact ⟨.refl s, fun _ => nofun, fun _ => ⟨rfl, nofun⟩⟩
  | read f => exact ⟨.refl s, fun _ => nofun, fun _ => ⟨rfl, nofun⟩⟩
  | listing part hpart => exact handles_listing hpart s
  | withSlot hact => exact handles_withSlot hact s
  | @bind β γ act next hact hnext ihact ihnext =>
    have hfirst := ihact s
    rw [on_bind]
    rcases hrun : act.on s with ⟨halt | v, between⟩
    · rw [hrun] at hfirst
      refine ⟨hfirst.evolves, fun hready => ?_, fun hclosed => ?_⟩
      · intro hwaiting
        cases hwaiting
        exact hfirst.ready hready rfl
      · refine ⟨(hfirst.closed hclosed).1, ?_⟩
        intro hwaiting
        cases hwaiting
        exact (hfirst.closed hclosed).2 rfl
    · rw [hrun] at hfirst
      have hsecond := ihnext v between
      -- The slots are all back, so what was known of the pool still holds.
      have hpool : between.pool = s.pool := hfirst.evolves.pool
      refine ⟨hfirst.evolves.trans hsecond.evolves, fun hready => ?_, fun hclosed => ?_⟩
      · exact hsecond.ready (hpool ▸ hready)
      · have hsame : between = s := (hfirst.closed hclosed).1
        subst hsame
        exact hsecond.closed hclosed

end Action

/-! ## Answers -/

namespace Server

/-- The listings that the answer to a line asks for. -/
def parts (line : String) : List Catalog.Part :=
  match Reading.ofLine line with
  | .wellFormed request => request.parts
  | _ => []

/-- **What an answer does to a server.** -/
theorem handles_answer (s : Server) (line : String) :
    s.Evolves (parts line) (s.answer line).2 ∧
      (s.pool.Ready → (s.answer line).1 ≠ .waiting) ∧
      (s.pool.closed = true → (s.answer line).2 = s ∧ (s.answer line).1 ≠ .waiting) := by
  rcases request_or_fixed line with ⟨request, hline⟩ | ⟨outcome, hne, hanswer⟩
  · have hparts : parts line = request.parts := by
      simp only [parts, hline]
    obtain ⟨hevolves, hready, hclosed⟩ := request.outside_perform.handles s
    have hwaiting {result : Except Halt Reply} (hresult : result ≠ .error .waiting) :
        Outcome.ofResult result ≠ .waiting := by
      rcases result with (_ | _) | reply
      · exact nofun
      · exact absurd rfl hresult
      · exact nofun
    rw [answer_eq_of_wellFormed hline, hparts]
    exact ⟨hevolves, fun h => hwaiting (hready h),
      fun h => ⟨(hclosed h).1, hwaiting (hclosed h).2⟩⟩
  · rw [hanswer]
    exact ⟨.refl s, fun _ => hne, fun _ => ⟨rfl, hne⟩⟩

end Server

end Seismic
