import Seismic.Proofs.Extent
import Seismic.Proofs.Representable

/-!
# Truncation — waves slot by slot, and cut short

A wave is written sample by sample into a grid, over what earlier pieces have left there. What comes
out can be told for each slot by itself, without the grid: so a cap on the length of the grid takes
slots from its end, and changes none before it.

* **`Recording.overlay_eq_writeFrom`**: laying a piece over the grid is writing its samples one by
  one;
* **`Recording.heldAt_iff`**: what each slot holds is decided by the last piece that covers it;
* **`Recording.slotCount_cases`**: under a greater cap there are as many slots, or the smaller cap
  has been reached;
* **`Recording.wave_lookedUp`**: a wave is looked up slot by slot, and is the beginning of the wave
  under any greater cap.
-/

namespace Seismic.Recording

variable {r : Recording} {window : Span Time} {w : Segment Time} {pieces : List (Segment Time)}
  {anchor rate : Time} {k : Nat} {n : Int32}

/-! ## Writing -/

/-- Writes samples into a grid, the first of them into `slot`. Nothing is written in front of the
grid, and the first sample behind it is the end. -/
def writeFrom : List Int32 → Int → List Int32 → List Int32
  | grid, _, [] => grid
  | grid, slot, n :: rest =>
    if (grid.length : Int) ≤ slot then grid
    else if 0 ≤ slot then writeFrom (grid.set slot.toNat n) (slot + 1) rest
    else writeFrom grid (slot + 1) rest

/-- Writes the pieces into a grid one after the other, but for those at another rate. -/
def writeAll (anchor rate : Time) (pieces : List (Segment Time)) (grid : List Int32) : List Int32 :=
  pieces.foldl
    (fun grid p =>
      if p.rate.numEq rate then writeFrom grid (slot anchor rate p) p.samples else grid)
    grid

/-- Writing changes no length. -/
theorem length_writeFrom (grid : List Int32) (slot : Int) (samples : List Int32) :
    (writeFrom grid slot samples).length = grid.length := by
  induction samples generalizing grid slot with
  | nil => rfl
  | cons n rest ih =>
    unfold writeFrom
    split
    · rfl
    · split
      · rw [ih, List.length_set]
      · exact ih grid (slot + 1)

-- By induction on the samples: what is written later goes to later slots.
theorem getElem?_writeFrom {grid : List Int32} (hk : k < grid.length) (slot : Int)
    (samples : List Int32) : (writeFrom grid slot samples)[k]? =
      (if slot ≤ k then samples[(k - slot).toNat]? else none).or grid[k]? := by
  induction samples generalizing grid slot with
  | nil =>
    rw [writeFrom, List.getElem?_nil, ite_self, Option.none_or]
  | cons n rest ih =>
    unfold writeFrom
    by_cases hend : (grid.length : Int) ≤ slot
    · have hbefore : ¬ slot ≤ k := by omega
      rw [if_pos hend, if_neg hbefore, Option.none_or]
    · rw [if_neg hend]
      by_cases hinside : 0 ≤ slot
      · rw [if_pos hinside, ih (by rwa [List.length_set])]
        -- The slot is still to come, is this one, or is past; what was written is not written
        -- again.
        rcases Int.lt_trichotomy slot k with hlt | heq | hgt
        · have hindex : ((k : Int) - slot).toNat = ((k : Int) - (slot + 1)).toNat + 1 := by omega
          rw [if_pos (by omega), if_pos (by omega), hindex, List.getElem?_cons_succ,
            List.getElem?_set_ne (by omega)]
        · have hindex : ((k : Int) - slot).toNat = 0 := by omega
          have hslot : slot.toNat = k := by omega
          rw [if_neg (by omega), if_pos (by omega), hindex, hslot, List.getElem?_set_self hk]
          rfl
        · rw [if_neg (by omega), if_neg (by omega), List.getElem?_set_ne (by omega)]
      · have hindex : ((k : Int) - slot).toNat = ((k : Int) - (slot + 1)).toNat + 1 := by omega
        rw [if_neg hinside, ih hk, if_pos (by omega), if_pos (by omega), hindex,
          List.getElem?_cons_succ]

/-- **Laying samples over a grid is writing them one by one.** -/
theorem overlay_eq_writeFrom (grid : List Int32) (slot : Int) (samples : List Int32) :
    overlay grid slot samples = writeFrom grid slot samples := by
  refine List.ext_getElem? fun k => ?_
  by_cases hk : k < grid.length
  · rw [getElem?_overlay hk, getElem?_writeFrom hk]
  · rw [List.getElem?_eq_none, List.getElem?_eq_none]
    · rw [length_writeFrom]
      omega
    · rw [length_overlay]
      omega

/-- Pieces at another rate are skipped, whether the grid is written or laid over. -/
theorem writeAll_eq_overlaid (anchor rate : Time) (pieces : List (Segment Time))
    (grid : List Int32) :
    writeAll anchor rate pieces grid = overlaid anchor rate (fitting pieces rate) grid := by
  unfold writeAll overlaid fitting
  simp only [List.foldl_filter, overlay_eq_writeFrom]

/-! ## Looking up -/

/-- A piece at the rate of the grid that has slot `k` among those of its samples. -/
def Covers (anchor rate : Time) (k : Nat) (p : Segment Time) : Prop :=
  p.rate.numEq rate = true ∧ slot anchor rate p ≤ k ∧ (k : Int) < slot anchor rate p + p.length

/-- What a slot holds: the sample of the last piece that covers it, or none if no piece does. -/
inductive HeldAt (anchor rate : Time) (pieces : List (Segment Time)) (k : Nat) : Int32 → Prop
  | covered {before behind : List (Segment Time)} {p : Segment Time} {j : Nat} {n : Int32}
      (hpieces : pieces = before ++ p :: behind) (hrate : p.rate.numEq rate = true)
      (hslot : slot anchor rate p + j = k) (hsample : p.samples[j]? = some n)
      (hlast : ∀ q ∈ behind, ¬ Covers anchor rate k q) : HeldAt anchor rate pieces k n
  | blank (hnone : ∀ p ∈ pieces, ¬ Covers anchor rate k p) : HeldAt anchor rate pieces k noData

theorem sampleAt?_eq_some_iff {p : Segment Time} : sampleAt? anchor rate k p = some n ↔
    ∃ j : Nat, slot anchor rate p + j = k ∧ p.samples[j]? = some n := by
  unfold sampleAt?
  constructor
  · intro h
    split at h
    · exact ⟨_, by omega, h⟩
    · cases h
  · rintro ⟨j, hslot, hsample⟩
    have hindex : ((k : Int) - slot anchor rate p).toNat = j := by omega
    rw [if_pos (by omega), hindex, hsample]

/-- A piece at the rate of the grid has no sample for a slot exactly if it does not cover it. -/
theorem sampleAt?_eq_none_iff {p : Segment Time} (hrate : p.rate.numEq rate = true) :
    sampleAt? anchor rate k p = none ↔ ¬ Covers anchor rate k p := by
  unfold sampleAt? Covers Segment.length
  split
  · rw [List.getElem?_eq_none_iff]
    constructor
    · rintro hpast ⟨-, -, hinside⟩
      omega
    · intro hnot
      refine Nat.le_of_not_lt fun hinside => hnot ⟨hrate, ?_, ?_⟩ <;> omega
  · next hbefore => exact iff_of_true rfl fun h => hbefore h.2.1

/-- No piece at the rate of the grid has a sample for a slot exactly if no piece covers it. -/
theorem sampleAt?_fitting_iff : (∀ p ∈ fitting pieces rate, sampleAt? anchor rate k p = none) ↔
    ∀ p ∈ pieces, ¬ Covers anchor rate k p := by
  constructor
  · intro h p hp hcovers
    have hfits : p ∈ pieces.filter (·.rate.numEq rate) := List.mem_filter.mpr ⟨hp, hcovers.1⟩
    exact (sampleAt?_eq_none_iff hcovers.1).mp (h p hfits) hcovers
  · intro h p hp
    obtain ⟨hp, hrate⟩ := List.mem_filter.mp hp
    exact (sampleAt?_eq_none_iff hrate).mpr (h p hp)

theorem lastAt?_fitting_eq_none_iff : lastAt? anchor rate (fitting pieces rate) k = none ↔
    ∀ p ∈ pieces, ¬ Covers anchor rate k p := by
  rw [← sampleAt?_fitting_iff, lastAt?, List.findSome?_eq_none_iff]
  simp only [List.mem_reverse]

/-- **The last sample for a slot is what it holds.** -/
theorem heldAt_iff : HeldAt anchor rate pieces k n ↔
    (lastAt? anchor rate (fitting pieces rate) k).getD noData = n := by
  constructor
  · intro h
    cases h with
    | @covered before behind p j _ hpieces hrate hslot hsample hlast =>
      have hp : sampleAt? anchor rate k p = some n :=
        sampleAt?_eq_some_iff.mpr ⟨j, hslot, hsample⟩
      have hbehind := lastAt?_fitting_eq_none_iff.mpr hlast
      have hfits : fitting pieces rate = fitting before rate ++ p :: fitting behind rate := by
        unfold fitting
        rw [hpieces, List.filter_append]
        exact congrArg _ (List.filter_cons_of_pos hrate)
      rw [hfits, lastAt?_append, lastAt?_cons, hbehind, hp]
      rfl
    | blank hnone =>
      rw [lastAt?_fitting_eq_none_iff.mpr hnone]
      rfl
  · rintro rfl
    cases hlast : lastAt? anchor rate (fitting pieces rate) k with
    | none => exact .blank (lastAt?_fitting_eq_none_iff.mp hlast)
    | some m =>
      -- The pieces at another rate, between those that count, cover no slot and may be put back.
      obtain ⟨earlier, p, later, hsplit, hp, hlater⟩ := lastAt?_eq_some_iff.mp hlast
      obtain ⟨front, back, rfl, -, hback⟩ := List.filter_eq_append_iff.mp hsplit
      obtain ⟨skipped, behind, rfl, -, hrate, rfl⟩ := List.filter_eq_cons_iff.mp hback
      obtain ⟨j, hslot, hsample⟩ := sampleAt?_eq_some_iff.mp hp
      have hpieces : front ++ (skipped ++ p :: behind) = (front ++ skipped) ++ p :: behind :=
        (List.append_assoc _ _ _).symm
      exact .covered hpieces hrate hslot hsample (sampleAt?_fitting_iff.mp hlater)

/-! ## Caps -/

theorem slotCount_le (pieces : List (Segment Time)) (anchor rate : Time) (cap : Nat) :
    slotCount pieces anchor rate cap ≤ cap ∨
      2 ^ 53 ≤ cap ∧ 2 ^ 53 < slotCount pieces anchor rate cap := by
  -- Up to this cap numbers are exact, so a count that is not greater as a number is not greater.
  by_cases hexact : cap < 2 ^ 53
  · refine .inl ?_
    unfold slotCount
    dsimp only
    split
    · exact Nat.le_refl _
    · next hlt =>
      rw [Bool.not_eq_true] at hlt
      generalize Binary64.floor _ + 1 = wanted at hlt ⊢
      cases hnumber : wanted.isNaN with
      | true =>
        rw [Binary64.toIndex_of_isNaN hnumber]
        exact Nat.zero_le cap
      | false =>
        exact Binary64.toIndex_le hexact
          (Binary64.le_of_lt_eq_false hnumber (Binary64.isNaN_ofNat cap) hlt)
  · omega

/-- **Under a greater cap there are as many slots, or the smaller one has been reached.** -/
theorem slotCount_cases (pieces : List (Segment Time)) (anchor rate : Time) {cap cap' : Nat}
    (hle : cap ≤ cap') (hcap : cap < 2 ^ 64) :
    slotCount pieces anchor rate cap = slotCount pieces anchor rate cap' ∨
      slotCount pieces anchor rate cap = cap ∧ cap ≤ slotCount pieces anchor rate cap' := by
  unfold slotCount
  dsimp only
  -- The number of slots that are wanted does not depend on the cap.
  generalize Binary64.floor _ + 1 = wanted
  cases hlt : (Binary64.ofNat cap).lt wanted with
  | true =>
    refine .inr ⟨rfl, ?_⟩
    split
    · exact hle
    · exact Binary64.le_toIndex hcap hlt
  | false =>
    have hlt' := Binary64.lt_eq_false_of_le (Binary64.ofNat_le_ofNat hle) hlt
    rw [hlt']
    exact .inl rfl

/-- The shorter of two waves of the same pieces is the beginning of the longer one. -/
theorem Laid.samples_eq_take {cap cap' : Nat} {w' : Segment Time} (h : Laid pieces cap w)
    (h' : Laid pieces cap' w') (hstart : w'.start = w.start) (hrate : w'.rate = w.rate)
    (hle : w.length ≤ w'.length) : w.samples = w'.samples.take w.length := by
  refine List.ext_getElem? fun k => ?_
  by_cases hk : k < w.length
  · have hlonger := h'.samples k (Nat.lt_of_lt_of_le hk hle)
    rw [hstart, hrate] at hlonger
    rw [List.getElem?_take_of_lt hk, h.samples k hk, hlonger]
  · rw [List.getElem?_eq_none (Nat.le_of_not_lt hk), List.getElem?_eq_none]
    rw [List.length_take]
    omega

theorem exists_wave {cap : Nat} {first : Segment Time}
    (hfirst : earliest (r.clipped window) = some first)
    (hcount : slotCount (r.clipped window) first.start first.rate cap ≠ 0) :
    ∃ w, r.wave window cap = some w ∧ w.start = first.start ∧ w.rate = first.rate := by
  unfold wave
  dsimp only
  rw [hfirst, Option.bind_some, if_neg hcount]
  exact ⟨_, rfl, rfl, rfl⟩

/-- **A wave under a smaller cap is the beginning of the wave under a greater one.** -/
theorem wave_take {cap cap' : Nat} (hle : cap ≤ cap') (hcap : cap < 2 ^ 64)
    (h : r.wave window cap = some w) :
    ∃ w', r.wave window cap' = some w' ∧ w'.start = w.start ∧ w'.rate = w.rate ∧
      (w.samples = w'.samples.take cap ∨ w.samples = w'.samples) := by
  -- Both waves are laid over the grid of one earliest piece, so only their lengths differ.
  have hlaid := laid_of_wave h
  obtain ⟨first, hfirst, hstart, hrate⟩ := hlaid.first
  have hlength := hlaid.length
  have hpositive := hlaid.notEmpty
  have hcounts := slotCount_cases (r.clipped window) w.start w.rate hle hcap
  have hcount : slotCount (r.clipped window) first.start first.rate cap' ≠ 0 := by
    rw [hstart, hrate]
    omega
  obtain ⟨w', hw', hstart', hrate'⟩ := exists_wave hfirst hcount
  rw [hstart] at hstart'
  rw [hrate] at hrate'
  have hlaid' := laid_of_wave hw'
  have hlength' := hlaid'.length
  rw [hstart', hrate'] at hlength'
  have htake := hlaid.samples_eq_take hlaid' hstart' hrate' (by omega)
  refine ⟨w', hw', hstart', hrate', ?_⟩
  rcases hcounts with hsame | ⟨hreached, -⟩
  · right
    rw [htake, show w.length = w'.length by omega]
    exact List.take_length
  · left
    rw [htake, show w.length = cap by omega]

/-! ## Waves -/

/-- A wave as it is looked up slot by slot. A cap is compared as a rounded number, which is exact
below `2 ^ 53`. So a wave could only be longer than its cap with more samples than that, and these
are more than a memory holds. -/
structure LookedUp (pieces : List (Segment Time)) (cap : Nat) (w : Segment Time) : Prop where
  first : ∃ first, FirstLeast pieces first ∧ w.start = first.start ∧ w.rate = first.rate
  notEmpty : 0 < w.length
  length_le : w.length ≤ cap ∨ 2 ^ 53 ≤ cap ∧ 2 ^ 53 < w.length
  written : w.samples = writeAll w.start w.rate pieces (List.replicate w.length noData)
  heldAt_iff : ∀ k n, w.samples[k]? = some n ↔ k < w.length ∧ HeldAt w.start w.rate pieces k n

theorem samples_of_wave {cap : Nat} (h : r.wave window cap = some w) : w.samples =
    writeAll w.start w.rate (r.clipped window) (List.replicate w.length noData) := by
  have hlength := (laid_of_wave h).length
  unfold wave at h
  obtain ⟨first, -, h⟩ := Option.bind_eq_some_iff.mp h
  simp only [Option.ite_none_left_eq_some, Option.some.injEq] at h
  obtain ⟨-, rfl⟩ := h
  rw [hlength, writeAll_eq_overlaid]
  rfl

theorem lookedUp_of_wave {cap : Nat} (h : r.wave window cap = some w) :
    LookedUp (r.clipped window) cap w := by
  have hlaid := laid_of_wave h
  obtain ⟨first, hfirst, hstart, hrate⟩ := hlaid.first
  refine ⟨⟨first, firstLeast_of_earliest hfirst, hstart.symm, hrate.symm⟩, hlaid.notEmpty, ?_,
    samples_of_wave h, fun k n => ?_⟩
  · rw [hlaid.length]
    exact slotCount_le _ _ _ cap
  · rw [Recording.heldAt_iff]
    by_cases hk : k < w.length
    · rw [hlaid.samples k hk, Option.some.injEq]
      exact (and_iff_right hk).symm
    · rw [List.getElem?_eq_none (Nat.le_of_not_lt hk)]
      exact iff_of_false nofun fun h => hk h.1

/-- **A wave is looked up slot by slot, and a cap only cuts it short**: under a greater cap there is
a wave on the same grid that begins with the same samples. -/
theorem wave_lookedUp {cap : UInt64} (h : r.wave window cap.toNat = some w) :
    LookedUp (r.clipped window) cap.toNat w ∧
      ∀ cap' : UInt64, cap ≤ cap' → ∃ w', r.wave window cap'.toNat = some w' ∧
        w'.start = w.start ∧ w'.rate = w.rate ∧
        (w.samples = w'.samples.take cap.toNat ∨ w.samples = w'.samples) :=
  ⟨lookedUp_of_wave h, fun _ hle => wave_take (UInt64.le_iff_toNat_le.mp hle) cap.toNat_lt h⟩

/-- Four samples, and two that are laid over the second and the third of them. -/
def relaid : Recording := insert ⟨1, 1, [5, 6]⟩ (insert ⟨0, 1, [1, 2, 3, 4]⟩ [])

theorem relaid_wave_lookedUp : LookedUp (relaid.clipped ⟨0, 10⟩) 2 ⟨0, 1, [1, 5]⟩ ∧
    ∃ w', relaid.wave ⟨0, 10⟩ 4 = some w' ∧ w'.start = 0 ∧ w'.rate = 1 ∧
      ([1, 5] = w'.samples.take 2 ∨ [1, 5] = w'.samples) := by
  have hwave : relaid.wave ⟨0, 10⟩ (2 : UInt64).toNat = some ⟨0, 1, [1, 5]⟩ := by decide +kernel
  obtain ⟨hlookedUp, hlonger⟩ := wave_lookedUp hwave
  exact ⟨hlookedUp, hlonger 4 (by decide)⟩

end Seismic.Recording
