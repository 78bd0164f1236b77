import Seismic.Segment

/-!
# Recording — the segments stored for one channel

A recording is the list of a channel's segments in the order of their starts; of two segments with
the same start the one stored first comes first. From it follow the channel's coverage, the wave
that answers a window, and the gaps in a window.

A wave is one segment on the grid of its earliest piece. Each piece at the same rate is laid over
the grid in stored order, so where pieces overlap the last one stays. Pieces at another rate do not
fit the grid and are left out.
-/

namespace Seismic

/-- The stored segments of a channel, in the order of their starts. -/
abbrev Recording := List (Segment Time)

namespace Recording

/-- The recording with one more segment, after those that do not start later. -/
def insert (segment : Segment Time) : Recording → Recording
  | [] => [segment]
  | s :: rest =>
    if s.start.totalLe segment.start then s :: insert segment rest else segment :: s :: rest

/-! ## Coverage -/

/-- The span from the earliest start to the latest sample, if there is such a sample and both times
are finite. -/
def coverage (r : Recording) : Option (Span Time) :=
  let start := (r.map (·.start)).foldl Binary64.min (.infinity false)
  let stop := ((r.filter (!·.samples.isEmpty)).map (·.lastTime)).foldl Binary64.max (.infinity true)
  if start.isFinite && stop.isFinite then some ⟨start, stop⟩ else none

/-! ## Waves -/

/-- The pieces of the segments inside `window`, in stored order. -/
def clipped (r : Recording) (window : Span Time) : List (Segment Time) :=
  r.filterMap (·.slice window)

/-- The first of the pieces with the least start. -/
def earliest : List (Segment Time) → Option (Segment Time)
  | [] => none
  | piece :: pieces =>
    some (pieces.foldl (fun best p => if best.start.totalLe p.start then best else p) piece)

/-- The number of slots from `anchor` to the last sample of the pieces, at most `cap`. -/
def slotCount (pieces : List (Segment Time)) (anchor rate : Time) (cap : Nat) : Nat :=
  let stop := (pieces.map (·.lastTime)).foldl Binary64.max (.infinity true)
  let wanted := ((stop - anchor) * rate + Scalar.millionth).floor + 1
  if (Binary64.ofNat cap).lt wanted then cap else Scalar.toIndex wanted

/-- The slot of a piece's first sample: the grid point nearest to its start. -/
def slot (anchor rate : Time) (piece : Segment Time) : Int :=
  Scalar.toKey (((piece.start - anchor) * rate).round)

/-- A grid with `samples` laid over it from `slot` on. What falls outside the grid is dropped. -/
def overlay (grid : List Int32) (slot : Int) (samples : List Int32) : List Int32 :=
  let samples := samples.drop (-slot).toNat
  let skip := slot.toNat
  grid.take skip ++ samples.take (grid.length - skip) ++ grid.drop (skip + samples.length)

/-- The wave that answers `window`: the pieces at the rate of the earliest one on its grid, with
missing samples between them, at most `cap` samples long. -/
def wave (r : Recording) (window : Span Time) (cap : Nat) : Option (Segment Time) :=
  let pieces := r.clipped window
  (earliest pieces).bind fun first =>
    let count := slotCount pieces first.start first.rate cap
    if count = 0 then none
    else
      let fitting := pieces.filter (·.rate.numEq first.rate)
      let samples := fitting.foldl
        (fun grid piece => overlay grid (slot first.start first.rate piece) piece.samples)
        (List.replicate count noData)
      some ⟨first.start, first.rate, samples⟩

/-! ## Gaps -/

/-- The stretches without a reading from `cursor` to `stop`. Each reading, given with the length of
its sample period, moves the cursor to the end of its period; a step of a millionth of a second is
no gap. -/
def gapsFrom (stop : Time) : Time → List (Time × Time) → List (Span Time)
  | cursor, [] => if Scalar.lt Scalar.millionth (stop - cursor) then [⟨cursor, stop⟩] else []
  | cursor, (t, period) :: rest =>
    let later := gapsFrom stop (cursor.max (t + period)) rest
    if Scalar.lt Scalar.millionth (t - cursor) then ⟨cursor, t⟩ :: later else later

/-- The stretches of `window` without a reading. -/
def gaps (r : Recording) (window : Span Time) : List (Span Time) :=
  gapsFrom window.stop window.start <| (r.clipped window).flatMap fun piece =>
    piece.readings.map fun reading => (reading.1, 1 / piece.rate)

end Recording

end Seismic
