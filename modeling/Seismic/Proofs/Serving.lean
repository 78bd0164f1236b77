import Seismic.Proofs.Lockstep

/-!
# Serving — what a request for data comes to

All verbs for data are carried out in the same way: a slot, the channel, its coverage, the resolved
window, the product. What comes of it can be said without any of the steps in between:

* **`Server.access`** is what a request meets before anything else;
* **`Data.located`** is the channel of a request and the part of its window that can be served;
* **`Data.replyTo`** is the reply, given where to look the product up.

**`Data.result_serve`** says that the result of `serve` is made of these three, whatever the server
is like; then there is one equation for each verb (`result_samples`, `result_wave`,
`result_helicorder`, `result_rsam`). A failure to resolve the window is the reply of them all
(`Request.result_perform_of_error`), and what a request comes to is the answer to the lines that
make it (`Server.answer_of_wellFormed`).
-/

namespace Seismic

namespace Server

/-- What a request meets on its way to the archive: it takes a slot, and the archive has to be
online. -/
def access (s : Server) : Except Halt Unit :=
  match s.pool.acquire with
  | .error .closed => .error (.failed .closed)
  | .error .exhausted => .error .waiting
  | .ok _ => if s.archive.online then .ok () else .error (.failed .offline)

/-- The server with other slots and another count of queries, as it is within a request. -/
def working (s : Server) (pool : Pool) (queries : Nat) : Server :=
  { s with pool := pool, archive := { s.archive with queries := queries } }

end Server

/-! ## Sequences with a known start -/

namespace Action

variable {β γ : Type} {act : Action β} {next : β → Action γ} {s : Server}

/-- A sequence whose first step succeeds goes on behind it. -/
theorem on_bind_of_ok {v : β} {after : Server} (h : act.on s = (.ok v, after)) :
    (act >>= next).on s = (next v).on after := by
  rw [on_bind, h]

/-- Its result needs no more than the first value, if what follows looks at nothing else. -/
theorem result_bind_of_ok {v : β} {result : Except Halt γ} (h : (act.on s).1 = .ok v)
    (hnext : ∀ after, ((next v).on after).1 = result) :
    ((act >>= next).on s).1 = result := by
  have hact : act.on s = (.ok v, (act.on s).2) := Prod.ext h rfl
  rw [on_bind_of_ok hact]
  exact hnext _

/-- A sequence stops where its first step does. -/
theorem result_bind_of_error {halt : Halt} (h : (act.on s).1 = .error halt) :
    ((act >>= next).on s).1 = .error halt := by
  have hact : act.on s = (.error halt, (act.on s).2) := Prod.ext h rfl
  rw [on_bind, hact]

end Action

namespace Data

variable {β : Type} {data : DataRequest} {framing : Framing} {s : Server}

/-- The channel of a request and the part of its window that a server can serve. -/
def located (s : Server) (data : DataRequest) : Located :=
  match s.archive.sidOf? data.address with
  | none => ⟨0, .error .noChannel⟩
  | some sid =>
    ⟨sid, Window.resolve s.policy s.clock.now data.window (s.archive.coverage sid)⟩

/-- The reply to a request that has been located, where `find` looks the product up. -/
def replyTo (data : DataRequest) (framing : Framing) (found : Located)
    (find : Nat → Span Time → Option β) (reply : Nat → β → Reply) : Reply :=
  match found.window with
  | .error f => failure data framing found.sid f
  | .ok w =>
    match find found.sid w with
    | some product => reply found.sid product
    | none => failure data framing found.sid .gap

/-- **What holds of every failure and of every reply with a product** holds of the reply. -/
theorem replyTo_cases {P : Reply → Prop} {found : Located} {find : Nat → Span Time → Option β}
    {reply : Nat → β → Reply} (hfailure : ∀ f, P (failure data framing found.sid f))
    (hproduct : ∀ product, P (reply found.sid product)) :
    P (replyTo data framing found find reply) := by
  unfold replyTo
  cases found.window with
  | error f => exact hfailure f
  | ok w =>
    dsimp only
    cases find found.sid w with
    | some product => exact hproduct product
    | none => exact hfailure .gap

/-! ## One run of `serve` -/

/-- Online, locating succeeds. It changes nothing but the count of queries. -/
theorem on_locate (s : Server) (data : DataRequest) (h : s.archive.online = true) (pool : Pool)
    (queries : Nat) :
    ∃ queries', (locate s.policy s.clock.now data.address data.window).on (s.working pool queries) =
      (.ok (located s data), s.working pool queries') := by
  have hsid : (s.working pool queries).archive.sidOf? data.address =
      s.archive.sidOf? data.address := rfl
  have honline : (s.working pool queries).archive.online = true := h
  unfold locate located
  rw [Action.on_bind, Action.on_ask, honline, hsid]
  cases s.archive.sidOf? data.address with
  | none => exact ⟨queries + 1, rfl⟩
  | some sid =>
    -- The coverage is a second query, so two have been counted in the end.
    refine ⟨queries + 2, ?_⟩
    have honline' : ((s.working pool queries).archive.ask
        fun a => a.sidOf? data.address).2.online = true := h
    simp only [if_true]
    rw [Action.on_bind, Action.on_ask, honline']
    rfl

/-- Offline it fails at its first query. -/
theorem on_locate_offline (s : Server) (data : DataRequest) (h : s.archive.online = false)
    (pool : Pool) (queries : Nat) :
    ((locate s.policy s.clock.now data.address data.window).on (s.working pool queries)).1 =
      .error (.failed .offline) := by
  have honline : (s.working pool queries).archive.online = false := h
  unfold locate
  rw [Action.on_bind, Action.on_ask, honline]
  rfl

/-- **The result of a request for data**, whether or not it gets to the archive. -/
theorem result_serve (find : Nat → Span Time → Option β)
    {fetch : Nat → Span Time → Action (Option β)} {reply : Nat → β → Reply}
    (hfetch : s.archive.online = true → ∀ sid w pool queries,
      ((fetch sid w).on (s.working pool queries)).1 = .ok (find sid w)) :
    ((serve data framing fetch reply).on s).1 =
      s.access.map fun _ => replyTo data framing (located s data) find reply := by
  unfold serve Server.access
  rw [Action.on_withSlot]
  -- As `access` does: first the slot, then whether the archive is online. What follows are the
  -- steps inside the slot.
  rcases s.pool.acquire with (_ | _) | pool
  · rfl
  · rfl
  have hworking : { s with pool := pool } = s.working pool s.archive.queries := rfl
  simp only [hworking, Action.now]
  rw [Action.on_bind_of_ok (Action.on_read _ _), Action.on_bind_of_ok (Action.on_read _ _)]
  cases honline : s.archive.online with
  | false =>
    have hlocate := on_locate_offline s data honline pool s.archive.queries
    exact Action.result_bind_of_error hlocate
  | true =>
    obtain ⟨queries, hlocate⟩ := on_locate s data honline pool s.archive.queries
    refine (congrArg Prod.fst (Action.on_bind_of_ok hlocate)).trans ?_
    simp only [if_true, Except.map, replyTo]
    -- Located, the window and then the product decide which reply it is.
    cases (located s data).window with
    | error f => rfl
    | ok w =>
      refine Action.result_bind_of_ok (hfetch honline _ w pool queries) fun after => ?_
      simp only
      cases find (located s data).sid w with
      | none => rfl
      | some product => rfl

/-! ## The verbs -/

/-- The wave of a window that an archive has, if it holds a reading. -/
def foundWave (a : Archive) (sid : Nat) (w : Span Time) : Option (Segment Time) :=
  (Archive.wave sid w a).filter (·.hasData)

/-- A query gives what the archive holds, if it does not look at the count of queries. -/
theorem result_ask (h : s.archive.online = true) {query : Archive → β} (pool : Pool) (queries : Nat)
    (hquery : query { s.archive with queries := queries } = query s.archive) :
    ((Action.ask query).on (s.working pool queries)).1 = .ok (query s.archive) := by
  have honline : (s.working pool queries).archive.online = true := h
  rw [Action.on_ask, honline, ← hquery]
  rfl

/-- A wave without a reading is dropped behind the query. -/
theorem result_fetchWave (h : s.archive.online = true) (sid : Nat) (w : Span Time) (pool : Pool)
    (queries : Nat) :
    ((fetchWave sid w).on (s.working pool queries)).1 = .ok (foundWave s.archive sid w) := by
  have hwave : ((Action.ask (Archive.wave sid w)).on (s.working pool queries)).1 =
      .ok (Archive.wave sid w s.archive) := result_ask h pool queries rfl
  exact Action.result_bind_of_ok hwave fun _ => rfl

/-- **The line of samples.** -/
theorem result_samples (s : Server) (data : DataRequest) (withLocation : Bool) (fill : String) :
    ((samples data withLocation fill).on s).1 = s.access.map fun _ =>
      replyTo data (.channel withLocation) (located s data) (foundWave s.archive) fun sid wave =>
        .line (sampleLine (header data (.channel withLocation) sid) fill wave) := by
  unfold samples
  exact result_serve (foundWave s.archive) result_fetchWave

/-- **The wave as a payload**, under either framing. -/
theorem result_wave (s : Server) (data : DataRequest) (framing : Framing) (compressed : Bool) :
    ((wave data framing compressed).on s).1 = s.access.map fun _ =>
      replyTo data framing (located s data) (foundWave s.archive) fun sid wave =>
        .binary (waveHeader data framing sid wave) ⟨Layout.wave wave, compressed⟩ := by
  unfold wave
  exact result_serve (foundWave s.archive) result_fetchWave

/-- The helicorder of a window, coarse if the window is long. -/
def foundHelicorder (a : Archive) (sid : Nat) (w : Span Time) :
    Option (List (HelicorderRow Time)) :=
  Archive.helicorder sid w (coarseAfter.lt w.duration) a

/-- **The helicorder.** -/
theorem result_helicorder (s : Server) (data : DataRequest) (compressed : Bool) :
    ((helicorder data compressed).on s).1 = s.access.map fun _ =>
      replyTo data .idOnly (located s data) (foundHelicorder s.archive) fun sid rows =>
        .binary (header data .idOnly sid) ⟨Layout.helicorder rows, compressed⟩ := by
  unfold helicorder
  exact result_serve (foundHelicorder s.archive) fun h _ _ pool queries =>
    result_ask h pool queries rfl

/-- **The amplitude series.** -/
theorem result_rsam (s : Server) (data : DataRequest) (period : Option Nat) (compressed : Bool) :
    ((rsam data period compressed).on s).1 = s.access.map fun _ =>
      replyTo data .idOnly (located s data) (fun sid w => Archive.rsam sid w period s.archive)
        fun sid rows => .binary (header data .idOnly sid) ⟨Layout.rsam rows, compressed⟩ := by
  unfold rsam
  exact result_serve (fun sid w => Archive.rsam sid w period s.archive) fun h _ _ pool queries =>
    result_ask h pool queries rfl

end Data

namespace Request

/-- The channel and window of a request for data, and how its reply starts. -/
def dataOf? : Request → Option (DataRequest × Framing)
  | samples data withLocation _ => some (data, .channel withLocation)
  | wave data framing _ => some (data, framing)
  | helicorder data _ | rsam data _ _ => some (data, .idOnly)
  | _ => none

/-- **A window that cannot be served fails alike for all verbs.** -/
theorem result_perform_of_error {request : Request} {data : DataRequest} {framing : Framing}
    (hdata : request.dataOf? = some (data, framing)) {s : Server} {f : Failure}
    (hf : (Data.located s data).window = .error f) :
    (request.perform.on s).1 =
      s.access.map fun _ => Data.failure data framing (Data.located s data).sid f := by
  -- The failure comes before the product is looked up, so it does not matter which one it is.
  have hreply {β : Type} (find : Nat → Span Time → Option β) (reply : Nat → β → Reply) :
      Data.replyTo data framing (Data.located s data) find reply =
        Data.failure data framing (Data.located s data).sid f := by
    unfold Data.replyTo
    rw [hf]
  cases request with
  | version | status | menu | channels | records => cases hdata
  | samples data' withLocation fill =>
    cases hdata
    rw [perform, Data.result_samples, hreply]
  | wave data' framing' compressed =>
    cases hdata
    rw [perform, Data.result_wave, hreply]
  | helicorder data' compressed =>
    cases hdata
    rw [perform, Data.result_helicorder, hreply]
  | rsam data' period compressed =>
    cases hdata
    rw [perform, Data.result_rsam, hreply]

end Request

/-! ## Answers to lines -/

/-- What a request with the given result comes to. -/
def Outcome.ofResult : Except Halt Reply → Outcome
  | .ok r => .reply r
  | .error (.failed e) => .failed e
  | .error .waiting => .waiting

/-- Only a result that is a reply comes to a reply. -/
theorem Outcome.eq_ok_of_ofResult {result : Except Halt Reply} {r : Reply}
    (h : ofResult result = .reply r) : result = .ok r := by
  rcases result with (_ | _) | r'
  · cases h
  · cases h
  · cases h
    rfl

/-- A line is a request, or all servers answer it alike and stay as they are. -/
theorem Server.request_or_fixed (line : String) :
    (∃ request, Reading.ofLine line = .wellFormed request) ∨
      ∃ outcome, outcome ≠ .waiting ∧ ∀ s : Server, s.answer line = (outcome, s) := by
  -- Nothing but a request touches the server.
  cases hline : Reading.ofLine line with
  | wellFormed request => exact .inl ⟨request, rfl⟩
  | empty => exact .inr ⟨.silent, nofun, fun s => by simp only [answer, hline]⟩
  | unsupported keyword =>
    exact .inr ⟨.reply (.unsupported keyword), nofun, fun s => by simp only [answer, hline]⟩
  | malformed verb id =>
    cases hmismatch : verb.onMismatch with
    | ignored => exact .inr ⟨.silent, nofun, fun s => by simp only [answer, hline, hmismatch]⟩
    | rejected =>
      exact .inr ⟨.reply (.malformed id), nofun, fun s => by simp only [answer, hline, hmismatch]⟩

/-- **A request is answered by carrying it out.** -/
theorem Server.answer_eq_of_wellFormed {s : Server} {line : String} {request : Request}
    (h : Reading.ofLine line = .wellFormed request) :
    s.answer line = (.ofResult (request.perform.on s).1, (request.perform.on s).2) := by
  unfold Server.answer
  rw [h]
  simp only
  rcases request.perform.on s with ⟨(_ | _) | reply, after⟩
  · rfl
  · rfl
  · rfl

theorem Server.answer_of_wellFormed {s : Server} {line : String} {request : Request}
    (h : Reading.ofLine line = .wellFormed request) :
    (s.answer line).1 = .ofResult (request.perform.on s).1 :=
  congrArg Prod.fst (answer_eq_of_wellFormed h)

end Seismic
