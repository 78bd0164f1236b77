import Seismic.Recording

/-!
# Overlay — which sample a wave holds in a slot

A wave starts out as a grid of missing samples, and the pieces at its rate are laid over it one
after the other. So each slot is decided by the last of them that has a sample for it.

* **`Recording.sampleAt?`** is what one piece has for a slot, and **`Recording.lastAt?`** what the
  last of several has;
* **`Recording.laid_of_wave`**: a wave holds just that, from its first slot to its last;
* **`Recording.wave_keeps_iff`**: so a reading may get lost where pieces overlap, if the last of them
  misses the sample.
-/

namespace Seismic.Recording

variable {r : Recording} {window : Span Time} {cap : Nat} {w : Segment Time}
  {pieces : List (Segment Time)} {anchor rate : Time}

/-! ## One piece -/

theorem length_overlay (grid samples : List Int32) (slot : Int) :
    (overlay grid slot samples).length = grid.length := by
  unfold overlay
  simp only [List.length_append, List.length_take, List.length_drop]
  omega

theorem getElem?_overlay_before {grid : List Int32} {slot : Int} {k : Nat} (samples : List Int32)
    (hbefore : k < slot.toNat) (hk : k < grid.length) :
    (overlay grid slot samples)[k]? = grid[k]? := by
  have hleft : k < (grid.take slot.toNat).length := by
    rw [List.length_take]
    omega
  unfold overlay
  dsimp only
  rw [List.append_assoc, List.getElem?_append_left hleft, List.getElem?_take_of_lt hbefore]

theorem getElem?_overlay_from {grid : List Int32} {slot : Int} {k : Nat} (samples : List Int32)
    (hfrom : slot.toNat ≤ k) (hk : k < grid.length) :
    (overlay grid slot samples)[k]? = samples[(k - slot).toNat]?.or grid[k]? := by
  have hlength : (grid.take slot.toNat).length = slot.toNat := by
    rw [List.length_take]
    omega
  -- Samples before the grid are dropped, so the rest starts at the slot or at the grid's start.
  have hindex : (-slot).toNat + (k - slot.toNat) = ((k : Int) - slot).toNat := by omega
  have hlaid : ((samples.drop (-slot).toNat).take (grid.length - slot.toNat)).length =
      min (grid.length - slot.toNat) (samples.length - (-slot).toNat) := by
    rw [List.length_take, List.length_drop]
  unfold overlay
  dsimp only
  rw [List.append_assoc, List.getElem?_append_right (by omega), hlength]
  by_cases hinside : ((k : Int) - slot).toNat < samples.length
  · rw [List.getElem?_append_left (by omega), List.getElem?_take_of_lt (by omega),
      List.getElem?_drop, hindex, List.getElem?_eq_getElem hinside, Option.some_or]
  · have hpast : samples.length ≤ ((k : Int) - slot).toNat := by omega
    rw [List.getElem?_append_right (by omega), List.getElem?_drop, List.getElem?_eq_none hpast,
      Option.none_or, hlaid, List.length_drop]
    congr 1
    omega

/-- In a slot for which it has a sample, the new piece covers what has been there. -/
theorem getElem?_overlay {grid : List Int32} {k : Nat} (hk : k < grid.length) (samples : List Int32)
    (slot : Int) : (overlay grid slot samples)[k]? =
      (if slot ≤ k then samples[(k - slot).toNat]? else none).or grid[k]? := by
  by_cases hbefore : k < slot.toNat
  · have hnot : ¬ slot ≤ k := by omega
    rw [if_neg hnot, Option.none_or, getElem?_overlay_before samples hbefore hk]
  · have hle : slot ≤ k := by omega
    rw [if_pos hle, getElem?_overlay_from samples (Nat.le_of_not_lt hbefore) hk]

/-! ## All pieces -/

/-- The sample that a piece has for slot `k` of a grid. -/
def sampleAt? (anchor rate : Time) (k : Nat) (piece : Segment Time) : Option Int32 :=
  if slot anchor rate piece ≤ k then piece.samples[(k - slot anchor rate piece).toNat]? else none

/-- The sample for slot `k` of the last of the pieces that have one. -/
def lastAt? (anchor rate : Time) (pieces : List (Segment Time)) (k : Nat) : Option Int32 :=
  pieces.reverse.findSome? (sampleAt? anchor rate k)

/-- The pieces at the rate of the grid. -/
def fitting (pieces : List (Segment Time)) (rate : Time) : List (Segment Time) :=
  pieces.filter (·.rate.numEq rate)

/-- The grid with the pieces laid over it, the last on top. -/
def overlaid (anchor rate : Time) (pieces : List (Segment Time)) (grid : List Int32) : List Int32 :=
  pieces.foldl (fun grid piece => overlay grid (slot anchor rate piece) piece.samples) grid

theorem lastAt?_append (pieces others : List (Segment Time)) (k : Nat) :
    lastAt? anchor rate (pieces ++ others) k =
      (lastAt? anchor rate others k).or (lastAt? anchor rate pieces k) := by
  unfold lastAt?
  rw [List.reverse_append, List.findSome?_append]

theorem lastAt?_cons (piece : Segment Time) (rest : List (Segment Time)) (k : Nat) :
    lastAt? anchor rate (piece :: rest) k =
      (lastAt? anchor rate rest k).or (sampleAt? anchor rate k piece) := by
  unfold lastAt?
  rw [List.reverse_cons, List.findSome?_append, List.findSome?_singleton]

/-- What is taken for a slot is from a piece behind which no piece has a sample for it. -/
theorem lastAt?_eq_some_iff {k : Nat} {n : Int32} :
    lastAt? anchor rate pieces k = some n ↔ ∃ earlier q later, pieces = earlier ++ q :: later ∧
      sampleAt? anchor rate k q = some n ∧ ∀ p ∈ later, sampleAt? anchor rate k p = none := by
  unfold lastAt?
  rw [List.findSome?_eq_some_iff]
  constructor
  · rintro ⟨later, q, earlier, hreverse, hq, hlater⟩
    refine ⟨earlier.reverse, q, later.reverse, ?_, hq, ?_⟩
    · rw [← List.reverse_reverse pieces, hreverse, List.reverse_append, List.reverse_cons,
        List.append_assoc, List.singleton_append]
    · exact fun p hp => hlater p (List.mem_reverse.mp hp)
  · rintro ⟨earlier, q, later, rfl, hq, hlater⟩
    refine ⟨later.reverse, q, earlier.reverse, ?_, hq, ?_⟩
    · rw [List.reverse_append, List.reverse_cons, List.append_assoc, List.singleton_append]
    · exact fun p hp => hlater p (List.mem_reverse.mp hp)

/-- What is taken for a slot is a sample of one of the pieces. -/
theorem mem_of_lastAt? {k : Nat} {n : Int32} (h : lastAt? anchor rate pieces k = some n) :
    ∃ p ∈ pieces, n ∈ p.samples := by
  obtain ⟨earlier, q, later, rfl, hq, -⟩ := lastAt?_eq_some_iff.mp h
  refine ⟨q, List.mem_append_right earlier List.mem_cons_self, ?_⟩
  unfold sampleAt? at hq
  split at hq
  · exact List.mem_of_getElem? hq
  · cases hq

theorem length_overlaid (anchor rate : Time) (pieces : List (Segment Time)) (grid : List Int32) :
    (overlaid anchor rate pieces grid).length = grid.length := by
  induction pieces generalizing grid with
  | nil => rfl
  | cons piece rest ih => exact (ih _).trans (length_overlay _ _ _)

-- By induction on the pieces: a later one covers what an earlier one has left.
theorem getElem?_overlaid (anchor rate : Time) (pieces : List (Segment Time)) {grid : List Int32}
    {k : Nat} (hk : k < grid.length) :
    (overlaid anchor rate pieces grid)[k]? = (lastAt? anchor rate pieces k).or grid[k]? := by
  induction pieces generalizing grid with
  | nil => rfl
  | cons piece rest ih =>
    have hone := getElem?_overlay hk piece.samples (slot anchor rate piece)
    have hlaid : k < (overlay grid (slot anchor rate piece) piece.samples).length :=
      Nat.lt_of_lt_of_eq hk (length_overlay _ _ _).symm
    have hrest := ih hlaid
    rw [hone] at hrest
    rw [lastAt?_cons, Option.or_assoc]
    exact hrest

/-- What a wave is made of: a grid from the start of the earliest piece, with the last sample for
each slot. -/
structure Laid (pieces : List (Segment Time)) (cap : Nat) (w : Segment Time) : Prop where
  first : ∃ first, earliest pieces = some first ∧ first.start = w.start ∧ first.rate = w.rate
  length : w.length = slotCount pieces w.start w.rate cap
  notEmpty : 0 < w.length
  samples : ∀ k < w.length,
    w.samples[k]? = some ((lastAt? w.start w.rate (fitting pieces w.rate) k).getD noData)

/-- **A wave holds the last sample for each slot**, or none where no piece has one. -/
theorem laid_of_wave (h : r.wave window cap = some w) : Laid (r.clipped window) cap w := by
  unfold wave at h
  obtain ⟨first, hfirst, h⟩ := Option.bind_eq_some_iff.mp h
  simp only [Option.ite_none_left_eq_some, Option.some.injEq] at h
  obtain ⟨hcount, rfl⟩ := h
  let grid := List.replicate (slotCount (r.clipped window) first.start first.rate cap) noData
  let pieces := fitting (r.clipped window) first.rate
  have hgrid : grid.length = slotCount (r.clipped window) first.start first.rate cap :=
    List.length_replicate
  have hlength : (overlaid first.start first.rate pieces grid).length = grid.length :=
    length_overlaid _ _ _ _
  have hsamples : ∀ k < (overlaid first.start first.rate pieces grid).length,
      (overlaid first.start first.rate pieces grid)[k]? =
        some ((lastAt? first.start first.rate pieces k).getD noData) := by
    intro k hk
    have hinside : k < grid.length := Nat.lt_of_lt_of_eq hk hlength
    have hmissing : grid[k]? = some noData :=
      List.getElem?_replicate_of_lt (Nat.lt_of_lt_of_eq hinside hgrid)
    rw [getElem?_overlaid first.start first.rate pieces hinside, hmissing, Option.or_some]
  exact ⟨⟨first, hfirst, rfl, rfl⟩, hlength.trans hgrid,
    Nat.lt_of_lt_of_eq (Nat.pos_of_ne_zero hcount) (hlength.trans hgrid).symm, hsamples⟩

/-! ## Lost readings -/

/-- The last of the pieces that have a sample for slot `k` misses it. -/
def BlankedAt (anchor rate : Time) (pieces : List (Segment Time)) (k : Nat) : Prop :=
  ∃ earlier q later, pieces = earlier ++ q :: later ∧ sampleAt? anchor rate k q = some noData ∧
    ∀ p ∈ later, sampleAt? anchor rate k p = none

theorem blankedAt_iff {k : Nat} :
    BlankedAt anchor rate pieces k ↔ lastAt? anchor rate pieces k = some noData :=
  lastAt?_eq_some_iff.symm

/-- **A reading is in the wave unless a later piece covers it with a missing sample.** That is so for
each of the pieces at the wave's rate, with those before it and those behind it, and for each of its
readings whose slot is in the wave. -/
theorem wave_keeps_iff (h : r.wave window cap = some w) {before behind : List (Segment Time)}
    {p : Segment Time} {j k : Nat} {n : Int32}
    (hpieces : fitting (r.clipped window) w.rate = before ++ p :: behind)
    (hn : p.samples[j]? = some n) (hreading : n ≠ noData)
    (hslot : slot w.start w.rate p + j = k) (hk : k < w.length) :
    (∃ m, w.samples[k]? = some m ∧ m ≠ noData) ↔ ¬ BlankedAt w.start w.rate behind k := by
  have hsample : sampleAt? w.start w.rate k p = some n := by
    have hle : slot w.start w.rate p ≤ k := by omega
    have hindex : ((k : Int) - slot w.start w.rate p).toNat = j := by omega
    rw [sampleAt?, if_pos hle, hindex, hn]
  have hlast := (laid_of_wave h).samples k hk
  rw [hpieces, lastAt?_append, lastAt?_cons, hsample] at hlast
  rw [blankedAt_iff, hlast]
  cases hbehind : lastAt? w.start w.rate behind k with
  | none => simpa using hreading
  | some m => simp

/-- Three samples, and a piece that misses the second of them. -/
def blanked : Recording := insert ⟨1, 1, [noData]⟩ (insert ⟨0, 1, [1, 2, 3]⟩ [])

theorem blanked_keeps_iff : (∃ m, ([1, noData, 3] : List Int32)[0]? = some m ∧ m ≠ noData) ↔
    ¬ BlankedAt 0 1 [⟨1, 1, [noData]⟩] 0 := by
  have hwave : blanked.wave ⟨0, 2⟩ 100 = some ⟨0, 1, [1, noData, 3]⟩ := by decide +kernel
  have hpieces : fitting (blanked.clipped ⟨0, 2⟩) 1 =
      [] ++ ⟨0, 1, [1, 2, 3]⟩ :: [⟨1, 1, [noData]⟩] := by decide +kernel
  have hfirst : ([1, 2, 3] : List Int32)[0]? = some 1 := rfl
  exact wave_keeps_iff hwave hpieces hfirst (by decide) (by decide +kernel) (by decide)

/-- The second sample is there, and there are no gaps; still the wave misses it. -/
theorem blanked_wave_misses : ∃ w p, blanked.wave ⟨0, 2⟩ 100 = some w ∧
    p ∈ blanked.clipped ⟨0, 2⟩ ∧ p.rate.numEq w.rate = true ∧ p.samples[1]? = some 2 ∧
    slot w.start w.rate p + 1 = 1 ∧ 1 < w.length ∧ blanked.gaps ⟨0, 2⟩ = [] ∧
    w.samples[1]? = some noData := by
  refine ⟨⟨0, 1, [1, noData, 3]⟩, ⟨0, 1, [1, 2, 3]⟩, ?_⟩
  decide +kernel

end Seismic.Recording
