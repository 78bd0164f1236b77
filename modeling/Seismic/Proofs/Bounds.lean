import Mathlib.Algebra.Group.Int.Defs
import Seismic.Proofs.Median
import Seismic.Proofs.Truncation

/-!
# Bounds — no query reaches outside a list

Queries take indices from times: a quotient is rounded, clipped to an integer, and says where a list
is cut or written. Here they are run with every index looked at before it is used. Such a run ends
with a fault where an index is out of bounds, so that its answer shows that none is.

* **`Access`** has the steps that are defined within bounds only, **`Access.Within`** their bounds;
* **`Segment.checkedSlice_eq`**: a slice is cut between two indices of the segment, in order;
* **`Recording.slot_nonneg_of_fits`**: no piece starts before its grid, whatever its rate is, so
  that **`Recording.checkedWriteFrom_eq`** counts on from its slot in 64 bits until the grid ends;
* **`queries_within_bounds`**: the checked runs give the answers.
-/

namespace Seismic

/-! ## Steps with bounds -/

/-- A step that is defined within bounds only. -/
inductive Access where
  /-- The number before `n`, such as the last index of a list of length `n`. -/
  | previous (n : Nat)
  /-- The values from one index to another, both included, of so many. -/
  | cut (first last length : Nat)
  /-- The value at an index of so many. -/
  | read (index length : Nat)
  /-- A sample put into a slot of a grid of so many, under a cap. -/
  | write (slot : Int) (length cap : Nat)
  /-- A sum of signed 64-bit numbers. -/
  | sum (a b : Int)
deriving DecidableEq, Repr

namespace Access

/-- The bounds of a step. -/
def Within : Access → Prop
  | previous n => 0 < n
  | cut first last length => first ≤ last ∧ last < length
  | read index length => index < length
  | write slot length cap => 0 ≤ slot ∧ slot < length ∧ length ≤ cap
  | sum a b => -2 ^ 63 ≤ a + b ∧ a + b < 2 ^ 63

instance : DecidablePred Within
  | previous n => inferInstanceAs (Decidable (0 < n))
  | cut _ _ _ => inferInstanceAs (Decidable (_ ∧ _))
  | read index length => inferInstanceAs (Decidable (index < length))
  | write _ _ _ => inferInstanceAs (Decidable (_ ∧ _ ∧ _))
  | sum _ _ => inferInstanceAs (Decidable (_ ∧ _))

end Access

/-- Why a checked run has no answer. -/
inductive Fault where
  | outside (access : Access)
  /-- There is no room for a grid of so many slots. -/
  | exhausted (length : Nat)
deriving DecidableEq, Repr

namespace Checked

variable {α : Type}

/-- Goes on if the step is within its bounds. -/
def check (access : Access) : Except Fault Unit :=
  if access.Within then .ok () else .error (.outside access)

def previous (n : Nat) : Except Fault Nat := do
  check (.previous n)
  return n - 1

def cut (values : List α) (first last : Nat) : Except Fault (List α) := do
  check (.cut first last values.length)
  return (values.drop first).take (last - first + 1)

def read (values : List α) (index : Nat) : Except Fault α :=
  if h : index < values.length then .ok values[index]
  else .error (.outside (.read index values.length))

def write (cap : Nat) (grid : List Int32) (slot : Int) (n : Int32) : Except Fault (List Int32) := do
  check (.write slot grid.length cap)
  return grid.set slot.toNat n

def sum (a b : Int) : Except Fault Int := do
  check (.sum a b)
  return a + b

/-- A grid of missing samples, if there is room for one of that length. -/
def grid (room length : Nat) : Except Fault (List Int32) :=
  if length ≤ room then .ok (List.replicate length noData) else .error (.exhausted length)

/-- A 64-bit index as a signed number. -/
def signed (index : Nat) : Int := Int.bmod index (2 ^ 64)

theorem ok_bind {β : Type} (x : α) (f : α → Except Fault β) : (Except.ok x >>= f) = f x := rfl

theorem check_eq {access : Access} (h : access.Within) : check access = .ok () := if_pos h

theorem previous_eq {n : Nat} (h : 0 < n) : previous n = .ok (n - 1) := by
  unfold previous
  rw [check_eq (show (Access.previous n).Within from h)]
  rfl

theorem cut_eq {values : List α} {first last : Nat} (hle : first ≤ last)
    (hlast : last < values.length) :
    cut values first last = .ok ((values.drop first).take (last - first + 1)) := by
  unfold cut
  rw [check_eq (show (Access.cut first last values.length).Within from ⟨hle, hlast⟩)]
  rfl

theorem read_eq {values : List α} {index : Nat} {x : α} (h : values[index]? = some x) :
    read values index = .ok x := by
  obtain ⟨hindex, rfl⟩ := List.getElem?_eq_some_iff.mp h
  exact dif_pos hindex

theorem grid_eq {room length : Nat} (h : length ≤ room) :
    grid room length = .ok (List.replicate length noData) := if_pos h

theorem grid_eq_error {room length : Nat} (h : ¬ length ≤ room) :
    grid room length = .error (.exhausted length) := if_neg h

theorem write_eq {cap : Nat} {grid : List Int32} {slot : Int} (hslot : 0 ≤ slot)
    (hlength : slot < grid.length) (hcap : grid.length ≤ cap) (n : Int32) :
    write cap grid slot n = .ok (grid.set slot.toNat n) := by
  unfold write
  rw [check_eq (show (Access.write slot grid.length cap).Within from ⟨hslot, hlength, hcap⟩)]
  rfl

theorem sum_eq {a b : Int} (hlow : -2 ^ 63 ≤ a + b) (hhigh : a + b < 2 ^ 63) :
    sum a b = .ok (a + b) := by
  unfold sum
  rw [check_eq (show (Access.sum a b).Within from ⟨hlow, hhigh⟩)]
  rfl

theorem signed_eq {index : Nat} (h : index < 2 ^ 63) : signed index = index :=
  Int.bmod_eq_of_le (by omega) (by omega)

/-- Steps that all go on give what they give. -/
theorem mapM_eq {β : Type} {f : α → Except Fault β} {g : α → β} {values : List α}
    (h : ∀ x ∈ values, f x = .ok (g x)) : values.mapM f = .ok (values.map g) := by
  induction values with
  | nil => rfl
  | cons x rest ih =>
    rw [List.mapM_cons, h x List.mem_cons_self, ih fun y hy => h y (List.mem_cons_of_mem x hy)]
    rfl

end Checked

/-! ## Slices -/

namespace Segment

/-- The time of the last sample, which has to exist. -/
def checkedLastTime (s : Segment Time) : Except Fault Time := do
  return s.sampleTime (← Checked.previous s.length)

/-- The samples inside `window`, cut at indices that have to be in order and in the segment. -/
def checkedSlice (s : Segment Time) (window : Span Time) :
    Except Fault (Option (Segment Time)) :=
  if s.samples.isEmpty || Scalar.le s.rate (Scalar.ofInt 0) then .ok none
  else
    (s.lastIndex? window).elim (.ok none) fun last => do
      let first := s.firstIndex window
      let last := min last (← Checked.previous s.length)
      if last < first then return none
      else return some ⟨s.sampleTime first, s.rate, ← Checked.cut s.samples first last⟩

theorem checkedLastTime_eq {s : Segment Time} (h : 0 < s.length) : s.checkedLastTime = .ok s.lastTime := by
  unfold checkedLastTime
  rw [Checked.previous_eq h]
  rfl

/-- **A slice is cut within the segment**, whatever its start and its rate are. -/
theorem checkedSlice_eq (s : Segment Time) (window : Span Time) :
    s.checkedSlice window = .ok (s.slice window) := by
  unfold checkedSlice slice
  split
  · rfl
  · next hnot =>
    have hpos : 0 < s.length := by
      rw [Bool.or_eq_true, not_or, List.isEmpty_iff] at hnot
      exact List.length_pos_iff.mpr hnot.1
    -- The first index may be anything up to here, but is compared with the last before the cut.
    cases s.lastIndex? window with
    | none => rfl
    | some last =>
      rw [Option.elim_some, Option.bind_some, Checked.previous_eq hpos]
      show (if _ then _ else _) = _
      dsimp only
      split
      · rfl
      · next hle =>
        have hlast : min last (s.length - 1) < s.samples.length :=
          Nat.lt_of_le_of_lt (Nat.min_le_right _ _) (Nat.sub_lt hpos Nat.one_pos)
        rw [Checked.cut_eq (Nat.le_of_not_lt hle) hlast]
        rfl

end Segment

/-! ## Coverage -/

namespace Recording

/-- The coverage, from the last samples of the segments that have one. -/
def checkedCoverage (r : Recording) : Except Fault (Option (Span Time)) := do
  let start := (r.map (·.start)).foldl Binary64.min (.infinity false)
  let times ← (r.filter (!·.samples.isEmpty)).mapM (·.checkedLastTime)
  let stop := times.foldl Binary64.max (.infinity true)
  return if start.isFinite && stop.isFinite then some ⟨start, stop⟩ else none

theorem checkedCoverage_eq (r : Recording) : r.checkedCoverage = .ok r.coverage := by
  have htimes : (r.filter (!·.samples.isEmpty)).mapM (·.checkedLastTime) =
      .ok ((r.filter (!·.samples.isEmpty)).map (·.lastTime)) := by
    refine Checked.mapM_eq fun s hs => Segment.checkedLastTime_eq (List.length_pos_iff.mpr ?_)
    have hsamples := (List.mem_filter.mp hs).2
    rwa [Bool.not_eq_true', Bool.eq_false_iff, ne_eq, List.isEmpty_iff] at hsamples
  unfold checkedCoverage
  rw [htimes]
  rfl

/-! ## Waves -/

/-- The pieces inside `window`, each cut within its segment. -/
def checkedClipped (r : Recording) (window : Span Time) : Except Fault (List (Segment Time)) := do
  return (← r.mapM (·.checkedSlice window)).filterMap id

/-- The number of slots from `anchor` to `stop`, at most `cap`, as `slotCount` counts them once the
latest sample is known. -/
def slotsTo (stop anchor rate : Time) (cap : Nat) : Nat :=
  let wanted := ((stop - anchor) * rate + Scalar.millionth).floor + 1
  if (Binary64.ofNat cap).lt wanted then cap else Scalar.toIndex wanted

/-- Writes samples into a grid, the one at index `j` into `slot + j`, and ends behind the grid. -/
def checkedWriteFrom (cap : Nat) (slot : Int) :
    List Int32 → Nat → List Int32 → Except Fault (List Int32)
  | grid, _, [] => .ok grid
  | grid, j, n :: rest => do
    let k ← Checked.sum slot (Checked.signed j)
    if Checked.signed grid.length ≤ k then return grid
    else if 0 ≤ k then checkedWriteFrom cap slot (← Checked.write cap grid k n) (j + 1) rest
    else checkedWriteFrom cap slot grid (j + 1) rest

/-- Writes the pieces into a grid one after the other, but for those at another rate. -/
def checkedWriteAll (cap : Nat) (anchor rate : Time) (pieces : List (Segment Time))
    (grid : List Int32) : Except Fault (List Int32) :=
  pieces.foldlM
    (fun grid p =>
      if p.rate.numEq rate then checkedWriteFrom cap (slot anchor rate p) grid 0 p.samples
      else .ok grid)
    grid

/-- The pieces on the grid of the first of them, if there is room for it. -/
def checkedLaid (room cap : Nat) (pieces : List (Segment Time)) (first : Segment Time) :
    Except Fault (Option (Segment Time)) := do
  let times ← pieces.mapM (·.checkedLastTime)
  let count := slotsTo (times.foldl Binary64.max (.infinity true)) first.start first.rate cap
  if count = 0 then return none
  else
    let grid ← Checked.grid room count
    let samples ← checkedWriteAll cap first.start first.rate pieces grid
    return some ⟨first.start, first.rate, samples⟩

/-- The wave that answers `window`. Its grid is the one list that a query makes longer than what is
stored, so it takes `room` into account, the most samples that memory holds in one list. -/
def checkedWave (room : Nat) (r : Recording) (window : Span Time) (cap : Nat) :
    Except Fault (Option (Segment Time)) := do
  let pieces ← r.checkedClipped window
  (earliest pieces).elim (.ok none) (checkedLaid room cap pieces)

/-- The number of slots of the wave that answers `window`, none if there is no wave. -/
def slots (r : Recording) (window : Span Time) (cap : Nat) : Nat :=
  (earliest (r.clipped window)).elim 0 fun first =>
    slotCount (r.clipped window) first.start first.rate cap

variable {r : Recording} {window : Span Time} {p first : Segment Time} {cap room : Nat}

theorem checkedClipped_eq (r : Recording) (window : Span Time) :
    r.checkedClipped window = .ok (r.clipped window) := by
  unfold checkedClipped clipped
  rw [Checked.mapM_eq fun s _ => s.checkedSlice_eq window]
  show Except.ok ((r.map (·.slice window)).filterMap id) = _
  rw [List.filterMap_map]
  rfl

/-! ## Slots -/

/-- A slot is a signed 64-bit number. -/
theorem slot_lt (anchor rate : Time) (p : Segment Time) : slot anchor rate p < 2 ^ 63 := by
  unfold slot
  generalize ((p.start - anchor) * rate).round = place
  cases hnumber : place.isNaN with
  | true =>
    have hzero : Scalar.toKey place = 0 := if_pos hnumber
    omega
  | false =>
    have hrange := (Binary64.clipInt_mem (x := place)
      (show -(Nat.pow 2 63 : Int) ≤ Nat.pow 2 63 - 1 by decide) hnumber).2
    exact Int.lt_of_le_of_lt hrange (by decide)

/-- **No piece starts before the grid** of one that starts no later, whatever the rate is. -/
theorem slot_nonneg_of_fits (hrate : Scalar.le first.rate (Scalar.ofInt 0) = false)
    (hfits : p.rate.numEq first.rate = true) (h : first.start.totalLe p.start = true) :
    0 ≤ slot first.start first.rate p := by
  have hnumber : first.rate.isNaN = false :=
    (Binary64.isNaN_of_le (Binary64.numEq_iff_le.mp hfits).1).2
  have hpos := Binary64.rank_pos_of_not_le_zero hnumber hrate
  rcases Binary64.finite_or_infinity hnumber with hfinite | hinfinite | hinfinite
  · exact slot_nonneg hfinite hpos h
  · rw [hinfinite] at hpos
    exact absurd hpos (by decide)
  · -- At an infinite rate a piece is placed at the start or behind every grid.
    unfold slot
    rw [hinfinite]
    rcases Binary64.sub_nonneg_of_totalLe h with hnan | hnonneg
    · rw [Binary64.nan_mul hnan]
      decide +kernel
    · rcases Binary64.mul_infinity_cases hnonneg with hplace | hplace <;> rw [hplace] <;>
        decide +kernel

/-! ## Writing -/

-- By induction on the samples. While the grid goes on, the slot after the one at hand is at most
-- the length of the grid, and so in 64 bits.
theorem checkedWriteFrom_eq {slot : Int} {grid : List Int32} {j : Nat} (samples : List Int32)
    (hslot : 0 ≤ slot) (hsum : slot + j < 2 ^ 63) (hlength : grid.length < 2 ^ 63)
    (hcap : grid.length ≤ cap) :
    checkedWriteFrom cap slot grid j samples = .ok (writeFrom grid (slot + j) samples) := by
  induction samples generalizing grid j with
  | nil => rfl
  | cons n rest ih =>
    have hj : Checked.signed j = j := Checked.signed_eq (by omega)
    have hend : Checked.signed grid.length = grid.length := Checked.signed_eq hlength
    unfold checkedWriteFrom writeFrom
    rw [hj, hend, Checked.sum_eq (by omega) hsum]
    show (if _ then _ else _) = _
    by_cases hstop : (grid.length : Int) ≤ slot + j
    · rw [if_pos hstop, if_pos hstop]
      rfl
    · -- A sample is written, since the grid has not ended before its slot.
      have hnonneg : 0 ≤ slot + j := by omega
      have hnext : slot + j + 1 = slot + (j + 1 : Nat) := by omega
      rw [if_neg hstop, if_neg hstop, if_pos hnonneg, if_pos hnonneg,
        Checked.write_eq hnonneg (by omega) hcap, hnext]
      refine ih (by omega) ?_ ?_ <;> rwa [List.length_set]

theorem checkedWriteAll_eq {anchor rate : Time} {pieces : List (Segment Time)} {grid : List Int32}
    (hslots : ∀ p ∈ pieces, p.rate.numEq rate = true → 0 ≤ slot anchor rate p)
    (hlength : grid.length < 2 ^ 63) (hcap : grid.length ≤ cap) :
    checkedWriteAll cap anchor rate pieces grid = .ok (writeAll anchor rate pieces grid) := by
  unfold checkedWriteAll writeAll
  induction pieces generalizing grid with
  | nil => rfl
  | cons p rest ih =>
    have hrest := fun q hq => hslots q (List.mem_cons_of_mem p hq)
    rw [List.foldlM_cons, List.foldl_cons]
    by_cases hfits : p.rate.numEq rate = true
    · have hslot := hslots p List.mem_cons_self hfits
      have hone := checkedWriteFrom_eq (j := 0) p.samples hslot
        (by simpa using slot_lt anchor rate p) hlength hcap
      rw [if_pos hfits, if_pos hfits, hone, Int.natCast_zero, Int.add_zero]
      refine ih hrest ?_ ?_ <;> rwa [length_writeFrom]
    · rw [if_neg hfits, if_neg hfits]
      exact ih hrest hlength hcap

/-! ## Grids -/

theorem wave_eq_written (r : Recording) (window : Span Time) (cap : Nat) :
    r.wave window cap = (earliest (r.clipped window)).bind fun first =>
      let count := slotCount (r.clipped window) first.start first.rate cap
      if count = 0 then none
      else some ⟨first.start, first.rate,
        writeAll first.start first.rate (r.clipped window) (List.replicate count noData)⟩ := by
  unfold wave
  simp only [writeAll_eq_overlaid]
  rfl

/-- A grid for which there is room is no longer than its cap: a cap below `2 ^ 53` is compared
exactly, and there is no room to reach a greater one. -/
theorem slotCount_le_cap {pieces : List (Segment Time)} {anchor rate : Time}
    (hbound : cap < 2 ^ 53 ∨ room ≤ 2 ^ 53) (hroom : slotCount pieces anchor rate cap ≤ room) :
    slotCount pieces anchor rate cap ≤ cap ∧ slotCount pieces anchor rate cap < 2 ^ 63 := by
  have hle := slotCount_le pieces anchor rate cap
  omega

-- With more room it could be longer: this cap is rounded up by one, and so many slots are counted.
example : slotCount [⟨0, 1, [1]⟩, ⟨Binary64.ofNat (2 ^ 53 + 2), 1, [2]⟩] 0 1 (2 ^ 53 + 3) =
    2 ^ 53 + 4 := by decide +kernel

/-- Laying pieces stays within the grid if each of them has samples, and those that fit do not start
before it. -/
theorem checkedLaid_eq {pieces : List (Segment Time)} (hbound : cap < 2 ^ 53 ∨ room ≤ 2 ^ 53)
    (hlast : ∀ p ∈ pieces, 0 < p.length)
    (hslots : ∀ p ∈ pieces, p.rate.numEq first.rate = true →
      0 ≤ slot first.start first.rate p) {count : Nat}
    (hcount : slotCount pieces first.start first.rate cap = count) :
    checkedLaid room cap pieces first =
      if count ≤ room then
        .ok (if count = 0 then none
          else some ⟨first.start, first.rate,
            writeAll first.start first.rate pieces (List.replicate count noData)⟩)
      else .error (.exhausted count) := by
  have hslotsTo : slotsTo ((pieces.map (·.lastTime)).foldl Binary64.max (.infinity true))
      first.start first.rate cap = count := hcount
  unfold checkedLaid
  rw [Checked.mapM_eq fun p hp => Segment.checkedLastTime_eq (hlast p hp), Checked.ok_bind]
  dsimp only
  rw [hslotsTo]
  -- Without slots no grid is made; else it is made and written, or there is no room for it.
  by_cases hnone : count = 0
  · rw [if_pos hnone, if_pos hnone, if_pos (hnone ▸ Nat.zero_le room)]
    rfl
  · rw [if_neg hnone, if_neg hnone]
    by_cases hroom : count ≤ room
    · obtain ⟨hcap, hlength⟩ := slotCount_le_cap hbound (hcount ▸ hroom)
      rw [hcount] at hcap hlength
      rw [if_pos hroom, Checked.grid_eq hroom, Checked.ok_bind, checkedWriteAll_eq hslots
        (by rwa [List.length_replicate]) (by rwa [List.length_replicate]), Checked.ok_bind]
      rfl
    · rw [if_neg hroom, Checked.grid_eq_error hroom]
      rfl

/-- **A wave is written within its grid**, if there is room for the grid. -/
theorem checkedWave_eq (hbound : cap < 2 ^ 53 ∨ room ≤ 2 ^ 53) (r : Recording) (window : Span Time) :
    r.checkedWave room window cap =
      if r.slots window cap ≤ room then .ok (r.wave window cap)
      else .error (.exhausted (r.slots window cap)) := by
  unfold checkedWave slots
  rw [checkedClipped_eq, wave_eq_written, Checked.ok_bind]
  cases hfirst : earliest (r.clipped window) with
  | none => rw [Option.elim_none, Option.elim_none, if_pos (Nat.zero_le room), Option.bind_none]
  | some first =>
    obtain ⟨hmem, hleast⟩ := earliest_spec hfirst
    rw [Option.elim_some, Option.elim_some, Option.bind_some]
    exact checkedLaid_eq hbound (fun p hp => (of_mem_clipped hp).1)
      (fun p hp hfits => slot_nonneg_of_fits (of_mem_clipped hmem).2 hfits (hleast p hp)) rfl

end Recording

/-! ## Medians -/

namespace Status

variable {α : Type} [Scalar α]

/-- The median, with the middle places looked up in the sorted values. -/
def checkedMedian (values : List α) : Except Fault (Option α) :=
  if values.isEmpty then .ok none
  else
    let values := sorted values
    let middle := values.length / 2
    if values.length % 2 = 0 then do
      let a ← Checked.read values (← Checked.previous middle)
      let b ← Checked.read values middle
      return some ((a + b) / Scalar.ofNat 2)
    else return some (← Checked.read values middle)

/-- **The middle places are places of the sorted values.** -/
theorem checkedMedian_eq (values : List α) : checkedMedian values = .ok (median values) := by
  unfold checkedMedian
  by_cases hnil : values = []
  · rw [hnil, median_nil]
    rfl
  · have hpos : 0 < values.length := List.length_pos_iff.mpr hnil
    rw [if_neg (by simpa using hnil)]
    dsimp only
    rw [length_sorted]
    rcases Nat.mod_two_eq_zero_or_one values.length with heven | hodd
    · obtain ⟨a, b, hbelow, habove, hmedian⟩ := median_of_even hnil heven
      rw [if_pos heven, Checked.previous_eq (by omega), Checked.ok_bind, Checked.read_eq hbelow,
        Checked.ok_bind, Checked.read_eq habove, hmedian]
      rfl
    · obtain ⟨v, hmiddle, hmedian⟩ := median_of_odd hodd
      rw [if_neg (by omega), Checked.read_eq hmiddle, hmedian]
      rfl

end Status

/-! ## Queries -/

/-- **No query reaches outside a list, whatever the times and rates are.** The checked runs give the
answers: a slice is cut between two indices of its segment, the last sample is only asked for where
there is one, samples are written into slots of a grid that is no longer than its cap, their slots
are counted in signed 64 bits, and the middle places are there. All other queries are made of the
pieces.

A wave has no answer only if there is no room for its grid. A cap below `2 ^ 53` bounds the grid
whatever the room is. A greater one is compared as a rounded number, which may be more than the cap,
so that the room has to be bounded there: by `2 ^ 53` samples, which take up 32 pebibytes. -/
theorem queries_within_bounds (room cap : Nat) (hbound : cap < 2 ^ 53 ∨ room ≤ 2 ^ 53)
    (s : Segment Time) (r : Recording) (window : Span Time) (ages : List Time) :
    s.checkedSlice window = .ok (s.slice window) ∧
      r.checkedClipped window = .ok (r.clipped window) ∧
      r.checkedCoverage = .ok r.coverage ∧
      (r.checkedWave room window cap =
        if r.slots window cap ≤ room then .ok (r.wave window cap)
        else .error (.exhausted (r.slots window cap))) ∧
      Status.checkedMedian ages = .ok (Status.median ages) :=
  ⟨s.checkedSlice_eq window, r.checkedClipped_eq window, r.checkedCoverage_eq,
    r.checkedWave_eq hbound window, Status.checkedMedian_eq ages⟩

/-- Samples at an infinite rate, at the least rate of all, and at no rate and no time. -/
def timeless : Recording :=
  [⟨0, .infinity false, [4, 5]⟩, ⟨1, .infinity false, [6]⟩, ⟨1, ⟨false, 1, by decide⟩, [7]⟩,
    ⟨.nan, .nan, [8]⟩]

-- The second segment is placed at the greatest slot that 64 bits have.
theorem timeless_within_bounds : (4 < 2 ^ 53 ∨ 2 ^ 45 ≤ 2 ^ 53) ∧
    Segment.checkedSlice ⟨.nan, .nan, [8]⟩ ⟨0, 10⟩ = .ok (some ⟨.nan, .nan, [8]⟩) ∧
    Recording.checkedCoverage timeless = .ok (some ⟨0, 1⟩) ∧
    Recording.checkedWave (2 ^ 45) timeless ⟨0, 10⟩ 4 =
      .ok (some ⟨0, .infinity false, [4, 5, noData, noData]⟩) ∧
    Status.checkedMedian [(.nan : Time), 1] = .ok (some .nan) := by
  have h : 4 < 2 ^ 53 ∨ 2 ^ 45 ≤ 2 ^ 53 := .inl (by decide)
  obtain ⟨hslice, -, hcoverage, hwave, hmedian⟩ :=
    queries_within_bounds (2 ^ 45) 4 h ⟨.nan, .nan, [8]⟩ timeless ⟨0, 10⟩ [.nan, 1]
  have hslots : Recording.slots timeless ⟨0, 10⟩ 4 = 4 := by decide +kernel
  have hsorted : Status.sorted [(.nan : Time), 1] = [1, .nan] :=
    (Status.eq_sorted Binary64.ordered (.swap .nan 1 []) (by decide +kernel)).symm
  rw [hslots, if_pos (by decide)] at hwave
  rw [Status.median, hsorted] at hmedian
  refine ⟨h, hslice.trans ?_, hcoverage.trans ?_, hwave.trans ?_, hmedian.trans ?_⟩ <;>
    refine congrArg Except.ok ?_ <;> decide +kernel

end Seismic
