import Seismic.Proofs.Fields
import Seismic.Proofs.Serving
import Seismic.Proofs.Shapes

/-!
# Asked — the lines that ask for data

All verbs for data take a channel and a window in the same tokens, and after these one or two tokens
of their own. `Target` is what the lines have in common and `Ask` what tells them apart:

* **`Asked.ofLine`**: a line made of both is well formed, and the request it makes names the same
  channel and the same window, whatever is asked for;
* **`Asked.answer`**: so it is answered with what the window comes to, and with the product that is
  asked for if it comes to one.
-/

namespace Seismic

/-! ## Targets -/

/-- A token as a finite number. -/
def Binary64.finite? (token : String) : Option Binary64 :=
  (Binary64.ofText? token).filter (·.isFinite)

/-- The tokens that name a channel and a window; both times are finite. -/
structure Target where
  id : String
  station : String
  channel : String
  network : String
  location : String
  start : String
  stop : String
  window : Span Time
  start_eq : (Binary64.finite? start).map Time.ofWire = some window.start
  stop_eq : (Binary64.finite? stop).map Time.ofWire = some window.stop

namespace Target

/-- The tokens as they stand on a line, with the location or without it. -/
def tokens (t : Target) (withLocation : Bool) : List String :=
  [t.id, t.station, t.channel, t.network] ++ (if withLocation then [t.location] else []) ++
    [t.start, t.stop]

/-- The channel and the window that the tokens spell. -/
def data (t : Target) : DataRequest where
  id := t.id
  address := .of t.station t.channel t.network (some t.location)
  window := t.window

end Target

/-! ## What is asked for -/

/-- The products of a window, with what a request chooses: the token for missing samples, a wave's
header, the period of a mean, compression. -/
inductive Ask where
  | samples (withLocation : Bool) (fill : String)
  | wave (withHeader compressed : Bool)
  | helicorder (compressed : Bool)
  | rsam {token : String} {period : Int}
      (h : Numeral.intWithin? (-Nat.pow 2 63) (Nat.pow 2 63 - 1) token = some period)
      (compressed : Bool)

namespace Ask

def verb : Ask → Verb
  | samples withLocation _ => if withLocation then .getScnl else .getScn
  | wave withHeader _ => if withHeader then .getScnlRaw else .getWaveRaw
  | helicorder _ => .getHelicorder
  | rsam _ _ => .getRsam

def withLocation : Ask → Bool
  | samples withLocation _ => withLocation
  | _ => true

def framing : Ask → Framing
  | samples withLocation _ => .channel withLocation
  | wave withHeader _ => if withHeader then .channel true else .idOnly
  | helicorder _ | rsam _ _ => .idOnly

/-- Whether the product is a wave, however it is sent. -/
def isWave : Ask → Bool
  | samples _ _ | wave _ _ => true
  | helicorder _ | rsam _ _ => false

/-- How compression is asked for. -/
def flag (set : Bool) : String := if set then "1" else "0"

/-- The tokens after the window. -/
def rest : Ask → List String
  | samples _ fill => [fill]
  | wave _ compressed | helicorder compressed => [flag compressed]
  | @rsam token _ _ compressed => [token, flag compressed]

def request (data : DataRequest) (ask : Ask) : Request :=
  match ask with
  | samples withLocation fill => .samples data withLocation fill
  | wave _ compressed => .wave data ask.framing compressed
  | helicorder compressed => .helicorder data compressed
  | @rsam _ period _ compressed => .rsam data (Rsam.period? period) compressed

/-- The product of a channel in a window as a reply, if there is one. -/
def product? (data : DataRequest) (a : Archive) (sid : Nat) (w : Span Time) (ask : Ask) :
    Option Reply :=
  let header := Data.header data ask.framing sid
  match ask with
  | samples _ fill => (Data.foundWave a sid w).map fun wave =>
    .line (Data.sampleLine header fill wave)
  | wave _ compressed => (Data.foundWave a sid w).map fun wave =>
    .binary (Data.waveHeader data ask.framing sid wave) ⟨Layout.wave wave, compressed⟩
  | helicorder compressed => (Data.foundHelicorder a sid w).map fun rows =>
    .binary header ⟨Layout.helicorder rows, compressed⟩
  | @rsam _ period _ compressed => (Archive.rsam sid w (Rsam.period? period) a).map fun rows =>
    .binary header ⟨Layout.rsam rows, compressed⟩

/-- The product as a reply, or the failure that stands for it. -/
def reply (data : DataRequest) (a : Archive) (found : Data.Located) (ask : Ask) : Reply :=
  match found.window with
  | .error f => Data.failure data ask.framing found.sid f
  | .ok w =>
    (ask.product? data a found.sid w).getD (Data.failure data ask.framing found.sid .gap)

theorem reply_of_error {data : DataRequest} {a : Archive} {found : Data.Located} {f : Failure}
    (h : found.window = .error f) (ask : Ask) :
    ask.reply data a found = Data.failure data ask.framing found.sid f := by
  unfold reply
  rw [h]

theorem reply_of_ok {data : DataRequest} {a : Archive} {found : Data.Located} {w : Span Time}
    (h : found.window = .ok w) (ask : Ask) :
    ask.reply data a found =
      (ask.product? data a found.sid w).getD (Data.failure data ask.framing found.sid .gap) := by
  unfold reply
  rw [h]

/-- A reply is a product sent on, or else a gap. -/
theorem replyTo_eq {β : Type} {data : DataRequest} {framing : Framing} {found : Data.Located}
    {find : Nat → Span Time → Option β} {reply : Nat → β → Reply} :
    Data.replyTo data framing found find reply =
      match found.window with
      | .error f => Data.failure data framing found.sid f
      | .ok w =>
        ((find found.sid w).map (reply found.sid)).getD
          (Data.failure data framing found.sid .gap) := by
  unfold Data.replyTo
  cases found.window with
  | error f => rfl
  | ok w =>
    simp only
    cases find found.sid w with
    | none => rfl
    | some product => rfl

/-- Without a wave there is none to send, in any format. -/
theorem product?_of_not_found {data : DataRequest} {a : Archive} {sid : Nat} {w : Span Time}
    (h : Data.foundWave a sid w = none) {ask : Ask} (hask : ask.isWave = true) :
    ask.product? data a sid w = none := by
  cases ask with
  | samples withLocation fill => rw [product?, h, Option.map_none]
  | wave withHeader compressed => rw [product?, h, Option.map_none]
  | helicorder compressed => cases hask
  | rsam hperiod compressed => cases hask

/-- **What is asked for differs in the product alone.** -/
theorem result_request (data : DataRequest) (s : Server) (ask : Ask) :
    ((ask.request data).perform.on s).1 =
      s.access.map fun _ => ask.reply data s.archive (Data.located s data) := by
  cases ask with
  | samples withLocation fill =>
    unfold request Request.perform
    simp only [Data.result_samples, replyTo_eq]
    rfl
  | wave withHeader compressed =>
    unfold request Request.perform
    simp only [Data.result_wave, replyTo_eq]
    rfl
  | helicorder compressed =>
    unfold request Request.perform
    simp only [Data.result_helicorder, replyTo_eq]
    rfl
  | rsam h compressed =>
    unfold request Request.perform
    simp only [Data.result_rsam, replyTo_eq]
    rfl

end Ask

/-! ## Lines -/

/-- A line with the tokens of a target and of what is asked for. Without a location token it can
name only a channel that has no location. -/
structure Asked (t : Target) (ask : Ask) (line : String) : Prop where
  parsed : Command.parse? line = some ⟨ask.verb.keyword, t.tokens ask.withLocation ++ ask.rest⟩
  named : ask.withLocation = true ∨ Address.isBlank t.location = true

/-- A blank location names the channel that three codes name. -/
theorem Address.of_eq_ofThree {location : String} (h : isBlank location = true)
    (station channel network : String) :
    of station channel network (some location) = ofThree station channel network := by
  simp [ofThree, of_eq_normalized, normalized_eq, h]

section Shape

variable {t : Target} (keyword : String) (rest : List String)

/-- Both shapes of a command have the times where they are looked for. -/
theorem Target.number?_tokens (t : Target) (withLocation : Bool) :
    ∃ start stop,
      Command.number? ⟨keyword, t.tokens withLocation ++ rest⟩ (if withLocation then 6 else 5) =
        some start ∧
      Command.number? ⟨keyword, t.tokens withLocation ++ rest⟩
        ((if withLocation then 6 else 5) + 1) = some stop ∧
      t.window = ⟨Time.ofWire start, Time.ofWire stop⟩ := by
  obtain ⟨start, hstart, hstart'⟩ := Option.map_eq_some_iff.mp t.start_eq
  obtain ⟨stop, hstop, hstop'⟩ := Option.map_eq_some_iff.mp t.stop_eq
  have hwindow : t.window = ⟨Time.ofWire start, Time.ofWire stop⟩ := by rw [hstart', hstop']
  cases withLocation with
  | false => exact ⟨start, stop, hstart, hstop, hwindow⟩
  | true => exact ⟨start, stop, hstart, hstop, hwindow⟩

/-- **A target is read from its tokens**, wherever the window starts. -/
theorem Target.data?_tokens {withLocation : Bool}
    (h : withLocation = true ∨ Address.isBlank t.location = true) :
    Request.data? ⟨keyword, t.tokens withLocation ++ rest⟩ withLocation = some t.data := by
  obtain ⟨start, stop, hstart, hstop, hwindow⟩ :=
    t.number?_tokens keyword rest withLocation
  refine Request.data?_eq_some_iff.mpr ⟨rfl, ?_, ?_⟩
  · refine Command.address?_eq_some_iff.mpr ⟨t.station, t.channel, t.network, rfl, rfl, rfl, ?_⟩
    cases withLocation with
    | false =>
      rcases h with h | h
      · cases h
      · exact Address.of_eq_ofThree h _ _ _
    | true => exact ⟨t.location, rfl, rfl⟩
  · exact Command.window?_eq_some_iff.mpr ⟨start, stop, hstart, hstop, hwindow⟩

/-- A command of the right length has both times. -/
theorem Target.hasTimes_tokens (t : Target) (withLocation : Bool) {count : Nat}
    (hcount : count = (if withLocation then 8 else 7) + rest.length) :
    Command.hasTimes ⟨keyword, t.tokens withLocation ++ rest⟩ count
      (if withLocation then 6 else 5) = true := by
  obtain ⟨start, stop, hstart, hstop, -⟩ :=
    t.number?_tokens keyword rest withLocation
  -- The location is one token more, and the rest of the line comes on top.
  have hlength : Command.length ⟨keyword, t.tokens withLocation ++ rest⟩ = count := by
    rw [hcount]
    unfold Command.length Command.tokens Target.tokens
    cases withLocation with
    | false => simp; omega
    | true => simp; omega
  unfold Command.hasTimes
  rw [hlength, hstart, hstop]
  simp

end Shape

namespace Ask

/-- A flag is read back. -/
theorem flag?_flag {keyword : String} {tokens : List String} {index : Nat} {set : Bool}
    (h : Command.token? ⟨keyword, tokens⟩ index = some (flag set)) :
    Command.flag? ⟨keyword, tokens⟩ index = some set := by
  unfold Command.flag?
  rw [h]
  cases set with
  | false => rfl
  | true => rfl

/-- **Every shape is accepted**, and makes the request for the target's channel and window. -/
theorem ofCommand?_tokens {t : Target} {ask : Ask}
    (h : ask.withLocation = true ∨ Address.isBlank t.location = true) :
    Request.ofCommand? ⟨ask.verb.keyword, t.tokens ask.withLocation ++ ask.rest⟩ ask.verb =
      some (ask.request t.data) := by
  -- Each reader gets the same two facts, that the times are there and what the target is; the
  -- tokens behind the window are read by computation.
  cases ask with
  | samples withLocation fill =>
    cases withLocation with
    | false =>
      have hshape := t.hasTimes_tokens Verb.getScn.keyword [fill] false (rfl : 8 = _)
      have hdata := Target.data?_tokens Verb.getScn.keyword [fill] h
      refine Request.samples?_eq_some_iff.mpr ⟨t.data, fill, rfl, ?_, hdata, rfl⟩
      exact hshape
    | true =>
      have hshape := t.hasTimes_tokens Verb.getScnl.keyword [fill] true (rfl : 9 = _)
      have hdata := Target.data?_tokens Verb.getScnl.keyword [fill] h
      refine Request.samples?_eq_some_iff.mpr ⟨t.data, fill, rfl, ?_, hdata, rfl⟩
      exact hshape
  | wave withHeader compressed =>
    have hshape (keyword : String) :=
      t.hasTimes_tokens keyword [flag compressed] true (rfl : 9 = _)
    have hdata (keyword : String) := Target.data?_tokens keyword [flag compressed] h
    cases withHeader with
    | false =>
      exact Request.wave?_eq_some_iff.mpr
        ⟨t.data, compressed, rfl, hshape _, hdata _, flag?_flag rfl⟩
    | true =>
      exact Request.wave?_eq_some_iff.mpr
        ⟨t.data, compressed, rfl, hshape _, hdata _, flag?_flag rfl⟩
  | helicorder compressed =>
    have hshape := t.hasTimes_tokens Verb.getHelicorder.keyword [flag compressed] true (rfl : 9 = _)
    have hdata := Target.data?_tokens Verb.getHelicorder.keyword [flag compressed] h
    exact Request.helicorder?_eq_some_iff.mpr
      ⟨t.data, compressed, rfl, hshape, hdata, flag?_flag rfl⟩
  | @rsam token period hperiod compressed =>
    have hshape :=
      t.hasTimes_tokens Verb.getRsam.keyword [token, flag compressed] true (rfl : 10 = _)
    have hdata := Target.data?_tokens Verb.getRsam.keyword [token, flag compressed] h
    exact Request.rsam?_eq_some_iff.mpr
      ⟨t.data, period, compressed, rfl, hshape, hdata, hperiod, flag?_flag rfl⟩

end Ask

theorem Verb.ofKeyword?_keyword (verb : Verb) : Verb.ofKeyword? verb.keyword = some verb := by
  cases verb <;> decide

namespace Asked

variable {t : Target} {ask : Ask} {line : String}

/-- A line is read as the request that its tokens make. -/
theorem ofLine (h : Asked t ask line) : Reading.ofLine line = .wellFormed (ask.request t.data) := by
  unfold Reading.ofLine
  rw [h.parsed]
  simp only [Verb.ofKeyword?_keyword, Ask.ofCommand?_tokens h.named]

/-- **The answer to a request for data.** -/
theorem answer (h : Asked t ask line) (s : Server) :
    (s.answer line).1 = .ofResult
      (s.access.map fun _ => ask.reply t.data s.archive (Data.located s t.data)) := by
  rw [Server.answer_of_wellFormed h.ofLine, Ask.result_request]

/-- With access the line is answered by a reply. -/
theorem answer_of_access (h : Asked t ask line) {s : Server} (haccess : s.access = .ok ()) :
    (s.answer line).1 = .reply (ask.reply t.data s.archive (Data.located s t.data)) := by
  rw [h.answer, haccess]
  rfl

/-- Without access nothing about the request matters. -/
theorem answer_of_halt (h : Asked t ask line) {s : Server} {halt : Halt}
    (haccess : s.access = .error halt) : (s.answer line).1 = .ofResult (.error halt) := by
  rw [h.answer, haccess]
  rfl

section Located

variable {s : Server} {sid : Nat} {w : Span Time}

theorem answer_of_unresolved (h : Asked t ask line) (haccess : s.access = .ok ()) {f : Failure}
    (hlocated : Data.located s t.data = ⟨sid, .error f⟩) :
    (s.answer line).1 = .reply (Data.failure t.data ask.framing sid f) := by
  rw [h.answer_of_access haccess, hlocated, Ask.reply_of_error rfl]

theorem answer_of_product (h : Asked t ask line) (haccess : s.access = .ok ())
    (hlocated : Data.located s t.data = ⟨sid, .ok w⟩) {r : Reply}
    (hr : ask.product? t.data s.archive sid w = some r) : (s.answer line).1 = .reply r := by
  rw [h.answer_of_access haccess, hlocated, Ask.reply_of_ok rfl, hr, Option.getD_some]

theorem answer_of_gap (h : Asked t ask line) (haccess : s.access = .ok ())
    (hlocated : Data.located s t.data = ⟨sid, .ok w⟩)
    (hnone : ask.product? t.data s.archive sid w = none) :
    (s.answer line).1 = .reply (Data.failure t.data ask.framing sid .gap) := by
  rw [h.answer_of_access haccess, hlocated, Ask.reply_of_ok rfl, hnone, Option.getD_none]

end Located

theorem lacks_space (h : Asked t ask line) {token : String}
    (htoken : token ∈ t.tokens ask.withLocation ++ ask.rest) : Lacks ' ' token :=
  Command.lacks_space_of_mem_arguments h.parsed htoken

end Asked

end Seismic
