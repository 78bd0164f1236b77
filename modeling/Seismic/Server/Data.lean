import Seismic.Request.Basic
import Seismic.Server.Basic
import Seismic.Window

/-!
# Data — waves, helicorders and amplitude series

Every request for data finds its channel, resolves its window and then fetches one product inside
the resolved window. It holds one slot from the lookup to the product. A request that cannot be
served gets a failure token; a product that holds no reading is a gap.
-/

namespace Seismic.Data

/-! ## Headers -/

/-- The start of a reply: the id alone, or also the channel's id and address. -/
def header (data : DataRequest) (framing : Framing) (sid : Nat) : String :=
  match framing with
  | .channel withLocation =>
    data.id ++ " " ++ Numeral.ofNat sid ++ " " ++ data.address.wire withLocation
  | .idOnly => data.id

/-- The reply that gives a failure. With a channel header, the failure to find the channel repeats
the request's id. -/
def failure (data : DataRequest) (framing : Framing) (sid : Nat) (f : Failure) : Reply :=
  let header := header data framing sid
  match framing, f with
  | .channel _, .noChannel => .failure (data.id ++ " " ++ header) f
  | _, _ => .failure header f

/-! ## Location -/

/-- A channel's id and the part of the window that can be served, or why there is none. A channel
that is not there has id zero. -/
structure Located where
  sid : Nat
  window : Except Failure (Span Time)

/-- Finds a channel and resolves a window against its coverage. The coverage is asked for only if
the channel is there. -/
def locate (policy : Policy) (now : Time) (address : Address) (window : Span Time) :
    Action Located := do
  match ← Action.ask fun a => a.sidOf? address with
  | none => return ⟨0, .error .noChannel⟩
  | some sid =>
    let coverage ← Action.ask (Archive.coverage sid)
    return ⟨sid, Window.resolve policy now window coverage⟩

/-- Fetches a product in the servable part of a request's window and makes the reply of it. Without
a product the reply is a gap. -/
def serve {β : Type} (data : DataRequest) (framing : Framing)
    (fetch : Nat → Span Time → Action (Option β)) (reply : Nat → β → Reply) : Action Reply :=
  Action.withSlot do
    let located ← locate (← Action.read (·.policy)) (← Action.now) data.address data.window
    match located.window with
    | .error f => return failure data framing located.sid f
    | .ok window =>
      match ← fetch located.sid window with
      | some product => return reply located.sid product
      | none => return failure data framing located.sid .gap

/-! ## Waves -/

/-- The wave in a window, if it holds a reading. -/
def fetchWave (sid : Nat) (window : Span Time) : Action (Option (Segment Time)) := do
  return (← Action.ask (Archive.wave sid window)).filter (·.hasData)

/-- The text of a sample; a missing one is written as `fill`. -/
def sampleText (fill : String) (sample : Int32) : String :=
  if sample = noData then fill else Numeral.ofInt sample.toInt

/-- The line of a wave in text: header, start, rate and the samples. -/
def sampleLine (header fill : String) (wave : Segment Time) : String :=
  header ++ " F " ++ sampleType ++ " " ++ wave.start.wireText ++ " " ++ wave.rate.fixed
    ++ String.join (wave.samples.map fun sample => " " ++ sampleText fill sample)

/-- The reply to a request for samples in text. -/
def samples (data : DataRequest) (withLocation : Bool) (fill : String) : Action Reply :=
  let framing := Framing.channel withLocation
  serve data framing fetchWave fun sid wave =>
    .line (sampleLine (header data framing sid) fill wave)

/-- The header of a binary wave. A channel header goes on with the times of the first and the last
sample. -/
def waveHeader (data : DataRequest) (framing : Framing) (sid : Nat) (wave : Segment Time) :
    String :=
  let header := header data framing sid
  match framing with
  | .channel _ =>
    header ++ " F " ++ sampleType ++ " " ++ wave.start.wireText ++ " " ++ wave.lastTime.wireText
  | .idOnly => header

/-- The reply to a request for a binary wave. -/
def wave (data : DataRequest) (framing : Framing) (compressed : Bool) : Action Reply :=
  serve data framing fetchWave fun sid wave =>
    .binary (waveHeader data framing sid wave) ⟨Layout.wave wave, compressed⟩

/-! ## Products -/

/-- Windows longer than this get coarse helicorders. -/
def coarseAfter : Time := 2 * Time.secondsPerDay

/-- The reply to a request for a helicorder. -/
def helicorder (data : DataRequest) (compressed : Bool) : Action Reply :=
  serve data .idOnly
    (fun sid window =>
      Action.ask (Archive.helicorder sid window (coarseAfter.lt window.duration)))
    fun sid rows => .binary (header data .idOnly sid) ⟨Layout.helicorder rows, compressed⟩

/-- The reply to a request for an amplitude series. -/
def rsam (data : DataRequest) (period : Option Nat) (compressed : Bool) : Action Reply :=
  serve data .idOnly (fun sid window => Action.ask (Archive.rsam sid window period))
    fun sid rows => .binary (header data .idOnly sid) ⟨Layout.rsam rows, compressed⟩

end Seismic.Data
