import Seismic.Proofs.Resolution
import Seismic.Proofs.Shapes
import Seismic.Server.Answer

/-!
# Lockstep — answers that depend on part of a server

Some parts of a server do not influence its answers. To say so, a relation `R` holds between servers
that agree on all the other parts, and two `R`-related servers are run side by side:

* **`Action.Agrees`**: on related servers an action gives the same value, or halts in the same way,
  and leaves related servers behind. Agreement is closed under sequencing
  (**`Action.Agrees.bind`**), so it is proved for each primitive and passed up to the verbs;
* **`Server.Congruence`**: what the primitives must satisfy for a relation;
* **`answer_agrees`**: for a congruence, related servers answer every request line alike.

Data are only ever fetched for a window that has been resolved, so a congruence need not look at
windows that the policy does not permit.
-/

namespace Seismic

/-! ## Runs of actions -/

namespace Action

variable {β γ : Type}

/-- A sequence of actions: the second runs on what the first leaves, unless the first halts. -/
theorem on_bind (act : Action β) (next : β → Action γ) (s : Server) :
    (act >>= next).on s =
      match act.on s with
      | (.ok value, after) => (next value).on after
      | (.error halt, after) => (.error halt, after) := by
  unfold Action.on ExceptT.run StateT.run
  simp only [bind, ExceptT.bind, ExceptT.mk, StateT.bind, ExceptT.bindCont]
  rcases act s with ⟨result, after⟩
  cases result <;> rfl

theorem on_read (f : Server → β) (s : Server) : (read f).on s = (.ok (f s), s) :=
  rfl

theorem on_ask (query : Archive → β) (s : Server) :
    (ask query).on s =
      (if s.archive.online then .ok (query s.archive) else .error (.failed .offline),
        { s with archive := (s.archive.ask query).2 }) := by
  show ask query s = _
  cases h : s.archive.online <;> simp [ask, Archive.ask, h]

theorem on_withSlot (act : Action β) (s : Server) :
    (withSlot act).on s =
      match s.pool.acquire with
      | .error .closed => (.error (.failed .closed), s)
      | .error .exhausted => (.error .waiting, s)
      | .ok pool =>
        ((act.on { s with pool := pool }).1,
          { (act.on { s with pool := pool }).2 with
            pool := (act.on { s with pool := pool }).2.pool.release }) :=
  rfl

/-! ## Agreement

`Q` is what is known of the value, so that what follows may rely on it. -/

/-- Two runs ended alike: with the same result, of which `Q` holds if it is a value, and with
related servers. -/
structure EndAlike (R : Server → Server → Prop) (Q : β → Prop)
    (x y : Except Halt β × Server) : Prop where
  result : x.1 = y.1
  after : R x.2 y.2
  value : ∀ v, x.1 = .ok v → Q v

/-- An action ends alike on every two related servers. -/
def Agrees (R : Server → Server → Prop) (Q : β → Prop) (act : Action β) : Prop :=
  ∀ s t, R s t → EndAlike R Q (act.on s) (act.on t)

variable {R : Server → Server → Prop} {Q : β → Prop} {P : γ → Prop} {act : Action β}

theorem EndAlike.ok {v : β} {s t : Server} (hst : R s t) (hv : Q v) :
    EndAlike R Q (.ok v, s) (.ok v, t) :=
  ⟨rfl, hst, fun _ h => by cases h; exact hv⟩

theorem EndAlike.error {halt : Halt} {s t : Server} (hst : R s t) :
    EndAlike R Q (.error halt, s) (.error halt, t) :=
  ⟨rfl, hst, fun _ h => by cases h⟩

theorem Agrees.pure {v : β} (h : Q v) : (pure v : Action β).Agrees R Q :=
  fun _ _ hst => .ok hst h

theorem Agrees.bind {next : β → Action γ} (h : act.Agrees R Q)
    (hnext : ∀ v, Q v → (next v).Agrees R P) : (act >>= next).Agrees R P := by
  intro s t hst
  obtain ⟨hresult, hafter, hvalue⟩ := h s t hst
  rw [on_bind, on_bind]
  rcases hs : act.on s with ⟨result, s'⟩
  rcases ht : act.on t with ⟨result', t'⟩
  rw [hs, ht] at hresult hafter
  rw [hs] at hvalue
  -- The results are equal, so both runs go on, or neither does.
  subst hresult
  cases result with
  | error halt => exact .error hafter
  | ok v => exact hnext v (hvalue v rfl) s' t' hafter

theorem Agrees.read {f : Server → β} (h : ∀ s t, R s t → f s = f t ∧ Q (f s)) :
    (Action.read f).Agrees R Q := by
  intro s t hst
  obtain ⟨heq, hq⟩ := h s t hst
  rw [on_read, on_read, ← heq]
  exact .ok hst hq

theorem Agrees.change {f : Server → Server} (h : ∀ s t, R s t → R (f s) (f t)) :
    (Action.change f).Agrees R (fun _ => True) :=
  fun s t hst => .ok (h s t hst) trivial

/-- A query that related servers answer alike. It is counted whether or not it is answered. -/
theorem Agrees.ask {query : Archive → β}
    (hquery : ∀ s t, R s t → s.archive.online = t.archive.online ∧
      query s.archive = query t.archive ∧ Q (query s.archive))
    (hasked : ∀ s t, R s t → R { s with archive := (s.archive.ask query).2 }
      { t with archive := (t.archive.ask query).2 }) :
    (Action.ask query).Agrees R Q := by
  intro s t hst
  obtain ⟨honline, heq, hq⟩ := hquery s t hst
  have hafter := hasked s t hst
  rw [on_ask, on_ask, ← honline, ← heq]
  cases s.archive.online with
  | true => exact .ok hafter hq
  | false => exact .error hafter

/-- Holding a slot keeps agreement where related servers have the same slots. -/
theorem Agrees.withSlot (h : act.Agrees R Q) (hpool : ∀ s t, R s t → s.pool = t.pool)
    (hwith : ∀ s t pool, R s t → R { s with pool := pool } { t with pool := pool }) :
    (Action.withSlot act).Agrees R Q := by
  intro s t hst
  rw [on_withSlot, on_withSlot, ← hpool s t hst]
  -- The slots are the same, so both servers admit the action or neither does.
  cases s.pool.acquire with
  | error reason =>
    cases reason with
    | closed => exact .error hst
    | exhausted => exact .error hst
  | ok pool =>
    obtain ⟨hresult, hafter, hvalue⟩ := h _ _ (hwith s t pool hst)
    refine ⟨hresult, ?_, hvalue⟩
    have hrelease := hwith _ _ ((act.on { s with pool := pool }).2.pool.release) hafter
    simp only
    rw [← hpool _ _ hafter]
    exact hrelease

/-- A listing is kept or fetched alike where related servers keep the same listings. -/
theorem Agrees.listing {kind : ListingKind β}
    (hkept : ∀ s t, R s t → s.catalog = t.catalog ∧ s.clock = t.clock)
    (hwith : ∀ s t catalog, R s t → R { s with catalog := catalog } { t with catalog := catalog })
    (hfetch : (Action.withSlot (Action.ask kind.query)).Agrees R (fun _ => True)) :
    (Action.listing kind).Agrees R (fun _ => True) := by
  have hfind (s t : Server) (hst : R s t) :
      s.catalog.find? kind s.clock.running = t.catalog.find? kind t.clock.running := by
    obtain ⟨hcatalog, hclock⟩ := hkept s t hst
    rw [hcatalog, hclock]
  refine Agrees.bind (Q := fun _ => True) (Agrees.read fun s t hst => ⟨hfind s t hst, trivial⟩)
    fun kept _ => ?_
  -- Both keep the same listing, or both fetch one and keep it for the same time.
  cases kept with
  | some listing => exact Agrees.pure trivial
  | none =>
    refine Agrees.bind hfetch fun fresh _ => Agrees.bind (Agrees.change fun s t hst => ?_)
      fun _ _ => Agrees.pure trivial
    obtain ⟨hcatalog, hclock⟩ := hkept s t hst
    have hkeep : t.catalog.keep kind t.clock.running fresh =
        s.catalog.keep kind s.clock.running fresh := by rw [hcatalog, hclock]
    rw [hkeep]
    exact hwith s t _ hst

end Action

/-! ## Congruences -/

/-- The coverage of a recording has proper ends, since it is only given where both are finite. -/
theorem proper_of_coverage {sid : Int} {a : Archive} {span : Span Time}
    (h : Archive.coverage sid a = some span) : span.Proper := by
  unfold Archive.coverage Recording.coverage at h
  simp only at h
  split at h
  · next hfinite =>
    cases h
    rw [Bool.and_eq_true] at hfinite
    exact ⟨Binary64.isNaN_of_isFinite hfinite.1, Binary64.isNaN_of_isFinite hfinite.2⟩
  · cases h

/-- What makes a relation between servers with a given policy and present a congruence: they agree
on what the replies show of a server, and every primitive that the verbs are made of agrees. -/
structure Server.Congruence (policy : Policy) (now : Time) (R : Server → Server → Prop) :
    Prop where
  policy_eq : ∀ s t, R s t → s.policy = policy ∧ t.policy = policy
  now_eq : ∀ s t, R s t → s.clock.now = now ∧ t.clock.now = now
  active_eq : ∀ s t, R s t → s.counters.active = t.counters.active
  withSlot : ∀ {β : Type} {Q : β → Prop} {act : Action β}, act.Agrees R Q →
    (Action.withSlot act).Agrees R Q
  brief : (Action.listing .brief).Agrees R (fun _ => True)
  full : (Action.listing .full).Agrees R (fun _ => True)
  instruments : (Action.listing .instruments).Agrees R (fun _ => True)
  sidOf : ∀ address, (Action.ask fun a => a.sidOf? address).Agrees R (fun _ => True)
  coverage : ∀ sid : Nat, (Action.ask (Archive.coverage sid)).Agrees R
    (fun c => ∀ span, c = some span → span.Proper)
  wave : ∀ (sid : Nat) window, policy.Permits now window →
    (Action.ask (Archive.wave sid window)).Agrees R (fun _ => True)
  helicorder : ∀ (sid : Nat) window coarse, policy.Permits now window →
    (Action.ask (Archive.helicorder sid window coarse)).Agrees R (fun _ => True)
  rsam : ∀ (sid : Nat) window period, policy.Permits now window →
    (Action.ask (Archive.rsam sid window period)).Agrees R (fun _ => True)

namespace Server.Congruence

open Seismic.Action

variable {policy : Policy} {now : Time} {R : Server → Server → Prop}

/-! ## Listings and status -/

/-- Policy and present are read alike. -/
theorem read_limits (h : Congruence policy now R) {β : Type} (f : Policy → Time → β) :
    (Action.read fun s => f s.policy s.clock.now).Agrees R (fun _ => True) :=
  Agrees.read fun s t hst => by
    obtain ⟨hs, ht⟩ := h.policy_eq s t hst
    obtain ⟨hs', ht'⟩ := h.now_eq s t hst
    rw [hs, ht, hs', ht']
    exact ⟨rfl, trivial⟩

theorem status_agrees (h : Congruence policy now R) (id : String) (threshold : Time) :
    (Status.reply id threshold).Agrees R (fun _ => True) := by
  refine Agrees.bind h.brief fun channels _ => Agrees.bind (Q := fun _ => True)
    (Agrees.read fun s t hst => ⟨?_, trivial⟩) fun _ _ => Agrees.pure trivial
  obtain ⟨hs, ht⟩ := h.policy_eq s t hst
  obtain ⟨hs', ht'⟩ := h.now_eq s t hst
  unfold Status.lines
  rw [hs, ht, hs', ht', h.active_eq s t hst]

theorem menu_agrees (h : Congruence policy now R) (id : String) (withLocation : Bool) :
    (Listings.menu id withLocation).Agrees R (fun _ => True) :=
  Agrees.bind h.brief fun channels _ => Agrees.bind
    (h.read_limits fun policy now => Listings.servable policy now channels)
    fun _ _ => Agrees.pure trivial

theorem channels_agrees (h : Congruence policy now R) (id : String) (verbose : Bool) :
    (Listings.channels id verbose).Agrees R (fun _ => True) :=
  Agrees.bind h.full fun channels _ => Agrees.bind h.instruments fun instruments _ => Agrees.bind
    (h.read_limits fun policy now =>
      Listings.channelLines policy now verbose instruments channels)
    fun _ _ => Agrees.pure trivial

theorem records_agrees (h : Congruence policy now R) (id : String) (kind : RecordKind) :
    (Listings.records id kind).Agrees R (fun _ => True) := by
  cases kind with
  | instrument => exact Agrees.bind h.instruments fun _ _ => Agrees.pure trivial
  | channel => exact Agrees.bind h.full fun _ _ => Agrees.pure trivial

/-! ## Data

A channel is located, its window is resolved, and only then are data fetched. So the fetch has to
agree for permitted windows alone. -/

/-- A window that is found is permitted. -/
theorem locate_agrees (h : Congruence policy now R) (address : Address) {window : Span Time}
    (hwindow : window.Proper) :
    (Data.locate policy now address window).Agrees R
      (fun located => ∀ w, located.window = .ok w → policy.Permits now w) := by
  refine Agrees.bind (h.sidOf address) fun sid? _ => ?_
  cases sid? with
  | none => exact Agrees.pure fun w hw => by cases hw
  | some sid =>
    refine Agrees.bind (h.coverage sid) fun coverage hcoverage => Agrees.pure fun w hw => ?_
    exact Window.permits_of_resolve hwindow hcoverage hw

/-- A request for data agrees if its fetch does for permitted windows. -/
theorem serve_agrees (h : Congruence policy now R) {data : DataRequest} (framing : Framing)
    {β : Type} {fetch : Nat → Span Time → Action (Option β)} (reply : Nat → β → Reply)
    (hwindow : data.window.Proper)
    (hfetch : ∀ sid w, policy.Permits now w → (fetch sid w).Agrees R (fun _ => True)) :
    (Data.serve data framing fetch reply).Agrees R (fun _ => True) := by
  refine h.withSlot ?_
  have hpolicy : (Action.read fun s => s.policy).Agrees R (· = policy) :=
    Agrees.read fun s t hst => by
      obtain ⟨hs, ht⟩ := h.policy_eq s t hst
      exact ⟨hs.trans ht.symm, hs⟩
  have hnow : Action.now.Agrees R (· = now) :=
    Agrees.read fun s t hst => by
      obtain ⟨hs, ht⟩ := h.now_eq s t hst
      exact ⟨hs.trans ht.symm, hs⟩
  refine Agrees.bind hpolicy fun policy' hp => Agrees.bind hnow fun now' hn => ?_
  subst hp hn
  -- The window is resolved under this very policy and present, so the fetch may rely on them.
  refine Agrees.bind (h.locate_agrees data.address hwindow) fun located hlocated => ?_
  cases hw : located.window with
  | error f => exact Agrees.pure trivial
  | ok w =>
    refine Agrees.bind (hfetch located.sid w (hlocated w hw)) fun product _ => ?_
    cases product with
    | some product => exact Agrees.pure trivial
    | none => exact Agrees.pure trivial

theorem fetchWave_agrees (h : Congruence policy now R) (sid : Nat) (w : Span Time)
    (hw : policy.Permits now w) : (Data.fetchWave sid w).Agrees R (fun _ => True) :=
  Agrees.bind (h.wave sid w hw) fun _ _ => Agrees.pure trivial

variable {data : DataRequest}

theorem samples_agrees (h : Congruence policy now R) (hwindow : data.window.Proper)
    (withLocation : Bool) (fill : String) :
    (Data.samples data withLocation fill).Agrees R (fun _ => True) := by
  unfold Data.samples
  exact h.serve_agrees _ _ hwindow h.fetchWave_agrees

theorem wave_agrees (h : Congruence policy now R) (hwindow : data.window.Proper)
    (framing : Framing) (compressed : Bool) :
    (Data.wave data framing compressed).Agrees R (fun _ => True) := by
  unfold Data.wave
  exact h.serve_agrees _ _ hwindow h.fetchWave_agrees

theorem helicorder_agrees (h : Congruence policy now R) (hwindow : data.window.Proper)
    (compressed : Bool) : (Data.helicorder data compressed).Agrees R (fun _ => True) := by
  unfold Data.helicorder
  exact h.serve_agrees _ _ hwindow fun sid w hw => h.helicorder sid w _ hw

theorem rsam_agrees (h : Congruence policy now R) (hwindow : data.window.Proper)
    (period : Option Nat) (compressed : Bool) :
    (Data.rsam data period compressed).Agrees R (fun _ => True) := by
  unfold Data.rsam
  exact h.serve_agrees _ _ hwindow fun sid w hw => h.rsam sid w period hw

end Server.Congruence

/-! ## Requests

The window of a request comes from two finite wire times, so its ends are numbers. -/

/-- The window of a request for data has proper ends. -/
def Request.Proper : Request → Prop
  | .samples data _ _ | .wave data _ _ | .helicorder data _ | .rsam data _ _ => data.window.Proper
  | _ => True

theorem proper_of_window? {c : Command} {index : Nat} {w : Span Time}
    (h : c.window? index = some w) : w.Proper := by
  -- Finite times are shifted by a finite epoch, which gives numbers.
  have hfinite (i : Nat) (x : Binary64) (hx : c.number? i = some x) :
      (Time.ofWire x).isNaN = false :=
    Binary64.isNaN_sub (Command.number?_eq_some_iff.mp hx).2 (by decide +kernel)
  obtain ⟨start, stop, hstart, hstop, rfl⟩ := Command.window?_eq_some_iff.mp h
  exact ⟨hfinite _ start hstart, hfinite _ stop hstop⟩

theorem proper_of_data? {c : Command} {withLocation : Bool} {data : DataRequest}
    (h : Request.data? c withLocation = some data) : data.window.Proper :=
  proper_of_window? (Request.data?_eq_some_iff.mp h).2.2

/-- Every request that a command makes has a proper window. -/
theorem proper_of_ofCommand? {c : Command} {verb : Verb} {request : Request}
    (h : Request.ofCommand? c verb = some request) : request.Proper := by
  -- Verb by verb: a window comes from the reader of the request, or the verb has none.
  cases verb with
  | version =>
    obtain ⟨_, h⟩ := Option.ite_none_right_eq_some.mp h
    cases h
    trivial
  | status =>
    obtain ⟨_, _, _, rfl⟩ := Request.status?_eq_some_iff.mp h
    trivial
  | menu | getChannels =>
    simp only [Request.ofCommand?] at h
    obtain ⟨_, _, ⟨_, rfl⟩ | ⟨_, _, rfl⟩⟩ := Request.withOption?_eq_some_iff.mp h
    · trivial
    · trivial
  | getMetadata =>
    obtain ⟨_, _, _, ⟨_, rfl⟩ | ⟨_, rfl⟩⟩ := Request.records?_eq_some_iff.mp h
    · trivial
    · trivial
  | getScn | getScnl =>
    simp only [Request.ofCommand?] at h
    obtain ⟨_, _, rfl, _, hdata, _⟩ := Request.samples?_eq_some_iff.mp h
    exact proper_of_data? hdata
  | getScnlRaw | getWaveRaw =>
    simp only [Request.ofCommand?] at h
    obtain ⟨_, _, rfl, _, hdata, _⟩ := Request.wave?_eq_some_iff.mp h
    exact proper_of_data? hdata
  | getHelicorder =>
    obtain ⟨_, _, rfl, _, hdata, _⟩ := Request.helicorder?_eq_some_iff.mp h
    exact proper_of_data? hdata
  | getRsam =>
    obtain ⟨_, _, _, rfl, _, hdata, _⟩ := Request.rsam?_eq_some_iff.mp h
    exact proper_of_data? hdata

/-- A line that reads as a request is a command with that request's verb. -/
theorem Reading.ofLine_eq_wellFormed {line : String} {request : Request}
    (h : Reading.ofLine line = .wellFormed request) :
    ∃ c verb, Command.parse? line = some c ∧ Verb.ofKeyword? c.keyword = some verb ∧
      Request.ofCommand? c verb = some request := by
  unfold Reading.ofLine at h
  split at h
  · cases h
  next c hparse =>
  split at h
  · cases h
  next verb hverb =>
  split at h
  · cases h
  next request' hrequest =>
  cases h
  exact ⟨c, verb, hparse, hverb, hrequest⟩

namespace Server.Congruence

open Seismic.Action

variable {policy : Policy} {now : Time} {R : Server → Server → Prop}

/-- Every request is carried out alike. -/
theorem perform_agrees (h : Congruence policy now R) {request : Request}
    (hproper : request.Proper) : request.perform.Agrees R (fun _ => True) := by
  cases request with
  | version => exact Agrees.pure trivial
  | status id threshold => exact h.status_agrees id threshold
  | menu id withLocation => exact h.menu_agrees id withLocation
  | channels id verbose => exact h.channels_agrees id verbose
  | records id kind => exact h.records_agrees id kind
  | samples data withLocation fill => exact h.samples_agrees hproper withLocation fill
  | wave data framing compressed => exact h.wave_agrees hproper framing compressed
  | helicorder data compressed => exact h.helicorder_agrees hproper compressed
  | rsam data period compressed => exact h.rsam_agrees hproper period compressed

/-- **Related servers answer alike.** -/
theorem answer_agrees (h : Congruence policy now R) {s t : Server} (hst : R s t) (line : String) :
    (s.answer line).1 = (t.answer line).1 ∧ R (s.answer line).2 (t.answer line).2 := by
  unfold Server.answer
  -- Only a well-formed line looks at the server at all.
  cases hline : Reading.ofLine line with
  | empty => exact ⟨rfl, hst⟩
  | unsupported keyword => exact ⟨rfl, hst⟩
  | malformed verb id =>
    simp only
    cases verb.onMismatch with
    | ignored => exact ⟨rfl, hst⟩
    | rejected => exact ⟨rfl, hst⟩
  | wellFormed request =>
    obtain ⟨c, verb, _, _, hrequest⟩ := Reading.ofLine_eq_wellFormed hline
    obtain ⟨hresult, hafter, _⟩ := h.perform_agrees (proper_of_ofCommand? hrequest) s t hst
    simp only
    rcases hs : request.perform.on s with ⟨result, s'⟩
    rcases ht : request.perform.on t with ⟨result', t'⟩
    rw [hs, ht] at hresult hafter
    simp only at hresult hafter
    subst hresult
    rcases result with (error | _) | reply
    · exact ⟨rfl, hafter⟩
    · exact ⟨rfl, hafter⟩
    · exact ⟨rfl, hafter⟩

end Server.Congruence

/-! ## Servers that differ in their archives and counters

The relations of interest are all of one kind: the servers share everything but their archives,
which are related in turn, and the counters that no reply shows. -/

/-- What makes a relation between archives a congruence under a policy: the archives answer every
query alike, a query for data as long as its window is permitted. -/
structure Archive.Congruence (policy : Policy) (now : Time) (A : Archive → Archive → Prop) :
    Prop where
  online : ∀ a b, A a b → a.online = b.online
  asked : ∀ a b, A a b →
    A { a with queries := a.queries + 1 } { b with queries := b.queries + 1 }
  listings : ∀ withMetadata a b, A a b → a.listings withMetadata = b.listings withMetadata
  instruments : ∀ a b, A a b → a.instrumentList = b.instrumentList
  sidOf : ∀ address a b, A a b → a.sidOf? address = b.sidOf? address
  coverage : ∀ (sid : Nat) a b, A a b → Archive.coverage sid a = Archive.coverage sid b
  wave : ∀ (sid : Nat) window a b, A a b → policy.Permits now window →
    Archive.wave sid window a = Archive.wave sid window b
  helicorder : ∀ (sid : Nat) window coarse a b, A a b → policy.Permits now window →
    Archive.helicorder sid window coarse a = Archive.helicorder sid window coarse b
  rsam : ∀ (sid : Nat) window period a b, A a b → policy.Permits now window →
    Archive.rsam sid window period a = Archive.rsam sid window period b

/-- Equal archives answer alike. -/
theorem Archive.congruence_eq (policy : Policy) (now : Time) :
    Archive.Congruence policy now (· = ·) := by
  constructor
  all_goals
    intros
    subst_vars
    rfl

/-- Two servers share everything but their archives, which are related by `A`, and the counters that
no reply shows. -/
structure Server.Alike (A : Archive → Archive → Prop) (s t : Server) : Prop where
  archive : A s.archive t.archive
  pool : s.pool = t.pool
  policy : s.policy = t.policy
  catalog : s.catalog = t.catalog
  active : s.counters.active = t.counters.active
  clock : s.clock = t.clock

namespace Archive.Congruence

open Seismic.Action

variable {policy : Policy} {now : Time} {A : Archive → Archive → Prop}

/-- Alike servers, the first with given counters, policy and present. -/
def Related (policy : Policy) (now : Time) (counters : Counters) (A : Archive → Archive → Prop)
    (s t : Server) : Prop :=
  s.Alike A t ∧ s.policy = policy ∧ s.clock.now = now ∧ s.counters = counters

/-- Archives in the relation answer a query alike. -/
theorem ask_agrees (h : Archive.Congruence policy now A) {β : Type} {query : Archive → β}
    {Q : β → Prop} (hquery : ∀ a b, A a b → query a = query b ∧ Q (query a)) :
    (Action.ask query).Agrees (Related policy now counters A) Q := by
  refine Agrees.ask (fun s t hst => ⟨h.online _ _ hst.1.archive, hquery _ _ hst.1.archive⟩)
    fun s t hst => ?_
  obtain ⟨halike, hfixed⟩ := hst
  exact ⟨{ halike with archive := h.asked _ _ halike.archive }, hfixed⟩

theorem withSlot_agrees {β : Type} {act : Action β} {Q : β → Prop}
    (hact : act.Agrees (Related policy now counters A) Q) :
    (Action.withSlot act).Agrees (Related policy now counters A) Q := by
  refine Agrees.withSlot hact (fun s t hst => hst.1.pool) fun s t pool hst => ?_
  obtain ⟨halike, hfixed⟩ := hst
  exact ⟨{ halike with pool := rfl }, hfixed⟩

/-- So listings are kept or fetched alike. -/
theorem listing_agrees (h : Archive.Congruence policy now A) {β : Type} {kind : ListingKind β}
    (hquery : ∀ a b, A a b → kind.query a = kind.query b) :
    (Action.listing kind).Agrees (Related policy now counters A) (fun _ => True) := by
  refine Agrees.listing (fun s t hst => ⟨hst.1.catalog, hst.1.clock⟩) (fun s t catalog hst => ?_)
    (withSlot_agrees (h.ask_agrees fun a b hab => ⟨hquery a b hab, trivial⟩))
  obtain ⟨halike, hfixed⟩ := hst
  exact ⟨{ halike with catalog := rfl }, hfixed⟩

/-- A congruence of archives makes one of servers. -/
theorem server (h : Archive.Congruence policy now A) :
    Server.Congruence policy now (Related policy now counters A) where
  policy_eq := fun _ _ hst => ⟨hst.2.1, hst.1.policy ▸ hst.2.1⟩
  now_eq := fun _ _ hst => ⟨hst.2.2.1, hst.1.clock ▸ hst.2.2.1⟩
  active_eq := fun _ _ hst => hst.1.active
  withSlot := withSlot_agrees
  brief := h.listing_agrees (h.listings false)
  full := h.listing_agrees (h.listings true)
  instruments := h.listing_agrees h.instruments
  sidOf := fun address => h.ask_agrees fun a b hab => ⟨h.sidOf address a b hab, trivial⟩
  coverage := fun sid => h.ask_agrees fun a b hab =>
    ⟨h.coverage sid a b hab, fun _ hspan => proper_of_coverage hspan⟩
  wave := fun sid window hw => h.ask_agrees fun a b hab => ⟨h.wave sid window a b hab hw, trivial⟩
  helicorder := fun sid window coarse hw => h.ask_agrees fun a b hab =>
    ⟨h.helicorder sid window coarse a b hab hw, trivial⟩
  rsam := fun sid window period hw => h.ask_agrees fun a b hab =>
    ⟨h.rsam sid window period a b hab hw, trivial⟩

/-- **Alike servers answer alike**, and their policy, present and counters stay as they are. -/
theorem answer_alike {s t : Server} (h : Archive.Congruence s.policy s.clock.now A)
    (hst : s.Alike A t) (line : String) :
    (s.answer line).1 = (t.answer line).1 ∧ (s.answer line).2.Alike A (t.answer line).2 ∧
      (s.answer line).2.policy = s.policy ∧ (s.answer line).2.clock.now = s.clock.now ∧
      (s.answer line).2.counters = s.counters :=
  h.server.answer_agrees ⟨hst, rfl, rfl, rfl⟩ line

end Archive.Congruence

end Seismic
