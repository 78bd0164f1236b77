import Seismic.Proofs.Evolution

/-!
# Slots — what is taken is given back

Slots are taken for the time of a request, and they are held outside requests. Whatever happens, the
slots that are not free are those that are held:

* **`Session.Balanced`** says so of a session, and every event keeps it (**`Session.balanced_step`**);
* **`Session.closed_run_iff`**: a pool stays closed once it has been closed;
* **`Session.slots_conserved`**: after every run each slot is accounted for, no request changes that,
  none waits while a slot is free, and a closed pool admits nobody.
-/

namespace Seismic

namespace Session

/-! ## One event -/

/-- All that an event does to the slots. -/
inductive Moves (x y : Session) (event : Event) : Prop
  | stays (hpool : y.server.pool = x.server.pool) (hheld : y.held = x.held) (hopen : event ≠ .close)
  | takes (hevent : event = .hold) (hpool : x.server.pool.acquire = .ok y.server.pool)
      (hheld : y.held = x.held + 1)
  | returns (hevent : event = .release) (hsome : 0 < x.held)
      (hpool : y.server.pool = x.server.pool.release) (hheld : y.held + 1 = x.held)
  | closes (hevent : event = .close) (hpool : y.server.pool = x.server.pool.close)
      (hheld : y.held = x.held)

theorem moves_step (x : Session) (event : Event) : Moves x (x.step event).2 event := by
  -- Requests and listings give back what they take. Of the other events three are about slots, and
  -- two of these do nothing if there is no slot to take or none to give back.
  cases event with
  | request line =>
    rw [step_request]
    exact .stays (x.server.handles_answer line).1.pool rfl nofun
  | list part =>
    have hlisting := Action.handles_listing (List.mem_singleton_self part) x.server
    rw [step_list]
    exact .stays hlisting.evolves.pool rfl nofun
  | invalidate => exact .stays rfl rfl nofun
  | advance ms => exact .stays rfl rfl nofun
  | change f => exact .stays rfl rfl nofun
  | close => exact .closes rfl rfl rfl
  | hold =>
    unfold step
    cases hpool : x.server.pool.acquire with
    | ok pool => exact .takes rfl hpool rfl
    | error reason => exact .stays rfl rfl nofun
  | release =>
    unfold step
    by_cases hheld : x.held = 0
    · simp only [if_pos hheld]
      exact .stays rfl rfl nofun
    · have hback : x.held - 1 + 1 = x.held := by omega
      simp only [if_neg hheld]
      exact .returns rfl (Nat.pos_of_ne_zero hheld) rfl hback

/-! ## Runs -/

/-- The free slots and those that are held are all there are. -/
structure Balanced (size : Nat) (x : Session) : Prop where
  size : x.server.pool.size = max size 1
  all : x.server.pool.free + x.held = x.server.pool.size

theorem balanced_step {size : Nat} {x : Session} (h : x.Balanced size) (event : Event) :
    (x.step event).2.Balanced size := by
  obtain ⟨hsize, hall⟩ := h
  cases x.moves_step event with
  | stays hpool hheld hopen => exact ⟨hpool ▸ hsize, by rw [hpool, hheld, hall]⟩
  | takes hevent hpool hheld =>
    -- The pool before is the one after with the slot back in it.
    have hback := Pool.release_of_acquire hpool
    rw [← hback, Pool.size_release] at hsize hall
    rw [Pool.free_release] at hall
    exact ⟨hsize, by omega⟩
  | returns hevent hsome hpool hheld =>
    refine ⟨by rw [hpool, Pool.size_release, hsize], ?_⟩
    rw [hpool, Pool.free_release, Pool.size_release]
    omega
  | closes hevent hpool hheld =>
    refine ⟨by rw [hpool, Pool.size_close, hsize], ?_⟩
    rw [hpool, Pool.free_close, Pool.size_close, hheld, hall]

theorem balanced_run {size : Nat} {x : Session} (h : x.Balanced size) (events : List Event) :
    (x.run events).2.Balanced size := by
  induction events generalizing x with
  | nil => exact h
  | cons event rest ih => exact ih (balanced_step h event)

/-- A pool is closed if it was, or is closed just now. -/
theorem closed_step_iff (x : Session) (event : Event) :
    (x.step event).2.server.pool.closed = true ↔ x.server.pool.closed = true ∨ event = .close := by
  cases x.moves_step event with
  | stays hpool hheld hopen => rw [hpool, or_iff_left hopen]
  | takes hevent hpool hheld =>
    subst hevent
    rw [← Pool.release_of_acquire hpool, Pool.closed_release, or_iff_left nofun]
  | returns hevent hsome hpool hheld =>
    subst hevent
    rw [hpool, Pool.closed_release, or_iff_left nofun]
  | closes hevent hpool hheld =>
    rw [hpool]
    exact iff_of_true (Pool.closed_close _) (.inr hevent)

theorem closed_run_iff (x : Session) (events : List Event) :
    (x.run events).2.server.pool.closed = true ↔
      x.server.pool.closed = true ∨ .close ∈ events := by
  induction events generalizing x with
  | nil => exact (or_iff_left List.not_mem_nil).symm
  | cons event rest ih =>
    rw [run_cons, ih, closed_step_iff, List.mem_cons, or_assoc, @eq_comm _ event]

/-! ## Conservation -/

/-- How the slots stand after some events, and what becomes of the next request. -/
structure SlotsConserved (size : Nat) (events : List Event) (x : Session) : Prop where
  size : x.server.pool.size = max size 1
  held : x.held ≤ x.server.pool.size
  /-- The slots that are not free are those that are held outside requests. -/
  free : x.server.pool.free = x.server.pool.size - x.held
  /-- No request gains or loses a slot, whatever it comes to. -/
  answer : ∀ line, (x.server.answer line).2.pool = x.server.pool
  listing : ∀ part : Catalog.Part,
    ((Action.listing part.kind).on x.server).2.pool = x.server.pool
  /-- No request needs two slots at once. -/
  ready : .close ∉ events → 0 < x.server.pool.free →
    (∀ line, (x.server.answer line).1 ≠ .waiting) ∧
      ∀ part : Catalog.Part, ((Action.listing part.kind).on x.server).1 ≠ .error .waiting
  /-- A closed pool gives no slot to anyone, nobody waits for one, and requests change nothing. -/
  refused : .close ∈ events → x.step .hold = (.refused .closed, x) ∧
    (∀ {β : Type} (act : Action β),
      (Action.withSlot act).on x.server = (.error (.failed .closed), x.server)) ∧
    ∀ line, (x.server.answer line).1 ≠ .waiting ∧ (x.server.answer line).2 = x.server
  /-- A slot that is held can be used and given back, be the pool closed or not. -/
  usable : 0 < x.held →
    (∀ {β : Type} (query : Archive → β),
      x.use? query = some (x.server.archive.ask query).1) ∧
    (x.step .release).2.server.pool.free = x.server.pool.free + 1

/-- **Slots are conserved.** However large the pool is, and whatever requests come, slots are held and
given back and the archive does, the free slots are those that nobody holds outside a request, and a
request waits only if there is none. -/
theorem slots_conserved (server : Server) (size : Nat) (events : List Event) :
    SlotsConserved size events (run ⟨{ server with pool := .ofSize size }, 0⟩ events).2 := by
  have hstart : Balanced size ⟨{ server with pool := .ofSize size }, 0⟩ := ⟨rfl, rfl⟩
  obtain ⟨hsize, hall⟩ := balanced_run hstart events
  have hclosed := closed_run_iff ⟨{ server with pool := .ofSize size }, 0⟩ events
  -- From here on it does not matter how the session came about.
  generalize (run ⟨{ server with pool := .ofSize size }, 0⟩ events).2 = x at *
  have hclosed : x.server.pool.closed = true ↔ .close ∈ events := by
    rw [hclosed, or_iff_right (show ¬ Pool.closed (.ofSize size) = true from nofun)]
  have hlisting (part : Catalog.Part) :=
    Action.handles_listing (List.mem_singleton_self part) x.server
  constructor
  case size => exact hsize
  case held => omega
  case free => omega
  case answer => exact fun line => (x.server.handles_answer line).1.pool
  case listing => exact fun part => (hlisting part).evolves.pool
  case ready =>
    intro hopen hfree
    have hready : x.server.pool.Ready :=
      ⟨Bool.eq_false_iff.mpr (mt hclosed.mp hopen), hfree⟩
    exact ⟨fun line => (x.server.handles_answer line).2.1 hready,
      fun part => (hlisting part).ready hready⟩
  case refused =>
    intro hclose
    have hpool := hclosed.mpr hclose
    refine ⟨?_, fun act => Action.on_withSlot_of_closed hpool act, fun line => ?_⟩
    · simp only [step, Pool.acquire_of_closed hpool]
    · obtain ⟨hsame, hwaits⟩ := (x.server.handles_answer line).2.2 hpool
      exact ⟨hwaits, hsame⟩
  case usable =>
    intro hheld
    have hsome : x.held ≠ 0 := Nat.ne_of_gt hheld
    refine ⟨fun query => if_neg hsome, ?_⟩
    simp only [step, if_neg hsome]
    rfl

end Session

end Seismic
