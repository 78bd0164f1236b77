import Seismic.Proofs.Binary64Arithmetic
import Seismic.Proofs.Overlay
import Seismic.Proofs.Recordings
import Seismic.Proofs.Slicing

/-!
# Extent — how many slots a wave has

The length of a wave is counted from the latest sample of its pieces, the slot of a sample from the
start of its piece. The one is rounded down, the other to the nearest slot.

* **`Recording.reach`** is the number of slots up to a time, and **`Recording.reach_mono`** says that
  a later time does not have fewer;
* **`Recording.slot_nonneg`**: no piece starts before the grid;
* **`Recording.wave_extends_iff`**: below its cap a wave has the slots that some piece's last sample
  reaches, and those only. A sample whose slot is rounded up may come after all of them.
-/

namespace Seismic.Recording

variable {anchor rate : Time}

/-! ## Slots up to a time -/

/-- The number of slots of a grid up to `t`, the slot at or just before it included. -/
def reach (anchor rate t : Time) : Nat :=
  Scalar.toIndex (((t - anchor) * rate + Scalar.millionth).floor + 1)

theorem isFinite_millionth : (Scalar.millionth : Time).isFinite = true := by decide +kernel

theorem isFinite_one : (1 : Time).isFinite = true := by decide +kernel

section Rate

variable (hrate : rate.isFinite = true) (hpos : 0 < rate.rank)
include hrate hpos

/-- Nothing is reached from nowhere. -/
theorem reach_eq_zero {t : Time} (h : (t - anchor).isNaN = true ∨ t - anchor = .infinity true) :
    reach anchor rate t = 0 := by
  unfold reach
  rcases h with h | h
  · rw [Binary64.nan_mul h, Binary64.nan_add rfl]
    decide +kernel
  · rw [h, Binary64.infinity_mul true hrate hpos, Binary64.infinity_add true isFinite_millionth]
    decide +kernel

/-- **A later time does not reach fewer slots.** -/
theorem reach_mono {t t' : Time} (h : t.le t' = true) : reach anchor rate t ≤ reach anchor rate t' := by
  -- Every step of the count is monotone, but for a difference of infinities, from which nothing is
  -- reached.
  rcases Binary64.sub_le_sub_or anchor h with hle | hnone
  · have hslots := Binary64.mul_le_mul hrate hpos hle
    have hfloor := Binary64.floor_le_floor (Binary64.add_le_add isFinite_millionth hslots)
    have hcount := Binary64.add_le_add isFinite_one hfloor
    exact Int.toNat_le_toNat (Binary64.clipInt_le_clipInt (by decide) hcount)
  · rw [reach_eq_zero hrate hpos hnone]
    exact Nat.zero_le _

/-- What is not a number reaches nothing. -/
theorem reach_of_isNaN {t : Time} (ht : t.isNaN = true) : reach anchor rate t = 0 := by
  refine reach_eq_zero hrate hpos (.inl ?_)
  rw [Binary64.nan_sub ht]
  rfl

/-- Nor does minus infinity, from which the latest time is sought. -/
theorem reach_bottom : reach anchor rate (.infinity true) = 0 := by
  refine reach_eq_zero hrate hpos ?_
  cases hanchor : anchor.isNaN with
  | true =>
    rw [Binary64.sub_nan _ hanchor]
    exact .inl rfl
  | false =>
    rcases Binary64.finite_or_infinity hanchor with hfinite | rfl | rfl
    · exact .inr (Binary64.infinity_sub true hfinite)
    · exact .inl (by decide)
    · exact .inr (by decide)

/-- **The latest of several times reaches just the slots that any of them reaches.** -/
theorem lt_reach_latest_iff (times : List Time) (k : Nat) :
    k < reach anchor rate (times.foldl Binary64.max (.infinity true)) ↔
      ∃ t ∈ times, k < reach anchor rate t := by
  constructor
  · intro hk
    rcases Binary64.foldl_max_mem times (.infinity true) with heq | hmem
    · rw [heq, reach_bottom hrate hpos] at hk
      exact absurd hk (Nat.not_lt_zero k)
    · exact ⟨_, hmem, hk⟩
  · rintro ⟨t, ht, hk⟩
    cases hnumber : t.isNaN with
    | true =>
      rw [reach_of_isNaN hrate hpos hnumber] at hk
      exact absurd hk (Nat.not_lt_zero k)
    | false =>
      exact Nat.lt_of_lt_of_le hk
        (reach_mono hrate hpos (Binary64.le_foldl_max rfl ht hnumber))

/-- **No piece starts before the grid** of one that starts no later. -/
theorem slot_nonneg {first p : Segment Time} (h : first.start.totalLe p.start = true) :
    0 ≤ slot first.start rate p := by
  unfold slot
  -- A distance that is not a number counts as none.
  rcases Binary64.sub_nonneg_of_totalLe h with hnan | hnonneg
  · rw [Binary64.nan_mul hnan]
    decide +kernel
  · have hslot := Binary64.round_le_round (Binary64.mul_le_mul hrate hpos hnonneg)
    rw [Binary64.zero_mul hrate hpos] at hslot
    have hzero : 0 ≤ Scalar.toKey (Binary64.zero false).round := by decide +kernel
    exact Int.le_trans hzero (Binary64.clipInt_le_clipInt (by decide) hslot)

end Rate

/-! ## Waves -/

/-- A piece has the rate of its segment. -/
theorem rate_of_slice {s p : Segment Time} {window : Span Time} (h : s.slice window = some p) :
    p.rate = s.rate := by
  obtain ⟨-, last, -, -, rfl⟩ := Segment.cut_of_slice h
  rfl

/-- What a piece is cut from has samples at a rate that is not zero or negative, so it has some
itself. -/
theorem of_mem_clipped {r : Recording} {p : Segment Time} {window : Span Time}
    (h : p ∈ r.clipped window) :
    0 < p.length ∧ Scalar.le p.rate (Scalar.ofInt 0) = false := by
  obtain ⟨s, -, hslice⟩ := List.mem_filterMap.mp h
  obtain ⟨hrate, last, hle, hlast, rfl⟩ := Segment.cut_of_slice hslice
  refine ⟨?_, hrate⟩
  rw [Segment.length_cut hle hlast]
  exact Nat.succ_pos _

/-- The piece that is kept while one after the other is looked at. -/
def earlier (best p : Segment Time) : Segment Time :=
  if best.start.totalLe p.start then best else p

/-- A piece that starts before all pieces in front of it, and no later than those behind it. -/
def FirstLeast (pieces : List (Segment Time)) (first : Segment Time) : Prop :=
  ∃ before behind, pieces = before ++ first :: behind ∧
    (∀ p ∈ before, p.start.totalLe first.start = false) ∧
    ∀ p ∈ behind, first.start.totalLe p.start = true

theorem FirstLeast.concat {pieces : List (Segment Time)} {best : Segment Time}
    (h : FirstLeast pieces best) (p : Segment Time) :
    FirstLeast (pieces ++ [p]) (earlier best p) := by
  obtain ⟨before, behind, rfl, hbefore, hbehind⟩ := h
  unfold earlier
  -- A piece that is not earlier goes behind the best one. An earlier one replaces it, and is before
  -- all that were behind it as well.
  cases hle : best.start.totalLe p.start with
  | true =>
    refine ⟨before, behind ++ [p], by simp, hbefore, fun q hq => ?_⟩
    rcases List.mem_append.mp hq with hq | hq
    · exact hbehind q hq
    · rw [List.mem_singleton.mp hq]
      exact hle
  | false =>
    refine ⟨before ++ best :: behind, [], rfl, fun q hq => ?_, nofun⟩
    rw [Bool.eq_false_iff]
    intro hqp
    rcases List.mem_append.mp hq with hq | hq
    · have hqbest := totalLe_trans hqp (totalLe_of_not_totalLe hle)
      exact Bool.eq_false_iff.mp (hbefore q hq) hqbest
    · rcases List.mem_cons.mp hq with rfl | hq
      · exact Bool.eq_false_iff.mp hle hqp
      · exact Bool.eq_false_iff.mp hle (totalLe_trans (hbehind q hq) hqp)

/-- So it stays while one piece after the other is looked at. -/
theorem FirstLeast.foldl {pieces : List (Segment Time)} {best : Segment Time}
    (h : FirstLeast pieces best) (rest : List (Segment Time)) :
    FirstLeast (pieces ++ rest) (rest.foldl earlier best) := by
  induction rest generalizing pieces best with
  | nil => rwa [List.append_nil]
  | cons p rest ih =>
    have hrest := ih (h.concat p)
    rwa [List.append_assoc] at hrest

/-- **The earliest piece is the first of those with the least start.** -/
theorem firstLeast_of_earliest {pieces : List (Segment Time)} {first : Segment Time}
    (h : earliest pieces = some first) : FirstLeast pieces first := by
  cases pieces with
  | nil => cases h
  | cons piece rest =>
    obtain rfl : rest.foldl earlier piece = first := Option.some.inj h
    have hone : FirstLeast [piece] piece := ⟨[], [], rfl, nofun, nofun⟩
    exact hone.foldl rest

/-- The earliest piece is one of them, and none is earlier. -/
theorem earliest_spec {pieces : List (Segment Time)} {first : Segment Time}
    (h : earliest pieces = some first) :
    first ∈ pieces ∧ ∀ p ∈ pieces, first.start.totalLe p.start = true := by
  obtain ⟨before, behind, rfl, hbefore, hbehind⟩ := firstLeast_of_earliest h
  refine ⟨List.mem_append_right before List.mem_cons_self, fun p hp => ?_⟩
  rcases List.mem_append.mp hp with hp | hp
  · exact totalLe_of_not_totalLe (hbefore p hp)
  · rcases List.mem_cons.mp hp with rfl | hp
    · exact totalLe_refl _
    · exact hbehind p hp

variable {r : Recording} {window : Span Time} {cap : Nat} {w : Segment Time}

/-- Below its cap a wave is as long as the latest of its pieces reaches. -/
theorem length_of_wave (h : r.wave window cap = some w) (hbelow : w.length < cap) :
    w.length = reach w.start w.rate
      (((r.clipped window).map (·.lastTime)).foldl Binary64.max (.infinity true)) := by
  have hlength := (laid_of_wave h).length
  unfold slotCount at hlength
  dsimp only at hlength
  split at hlength
  · omega
  · exact hlength

/-- **Below its cap a wave extends as far as the last sample of some piece reaches.** That is so
whatever the pieces are, as long as their rates are positive; and each index of a piece has a slot
of its own from the start of the grid on, which is in the wave or not. -/
theorem wave_extends_iff (hrates : ∀ s ∈ r, s.rate.isFinite = true ∧ (0 : Time).lt s.rate = true)
    (h : r.wave window cap = some w) (hbelow : w.length < cap) {p : Segment Time}
    (hp : p ∈ r.clipped window) (j : Nat) :
    ∃ k : Nat, slot w.start w.rate p + j = k ∧
      (k < w.length ↔ ∃ q ∈ r.clipped window, k < reach w.start w.rate q.lastTime) := by
  -- The grid is that of the earliest piece, which has the rate of a segment.
  obtain ⟨first, hfirst, hstart, hrate⟩ := (laid_of_wave h).first
  obtain ⟨hmem, hearliest⟩ := earliest_spec hfirst
  obtain ⟨s, hs, hslice⟩ := List.mem_filterMap.mp hmem
  obtain ⟨hfinite, hpositive⟩ := hrates s hs
  rw [← rate_of_slice hslice, hrate] at hfinite hpositive
  have hpos : 0 < w.rate.rank := by
    have hlt := Binary64.rank_lt_of_lt hpositive
    exact Int.lt_of_le_of_lt (by decide +kernel) hlt
  have hslot := slot_nonneg hfinite hpos (hearliest p hp)
  rw [hstart] at hslot
  refine ⟨(slot w.start w.rate p + j).toNat, by omega, ?_⟩
  rw [length_of_wave h hbelow, lt_reach_latest_iff hfinite hpos]
  constructor
  · rintro ⟨t, ht, hk⟩
    obtain ⟨q, hq, rfl⟩ := List.mem_map.mp ht
    exact ⟨q, hq, hk⟩
  · rintro ⟨q, hq, hk⟩
    exact ⟨q.lastTime, List.mem_map_of_mem hq, hk⟩

/-- Two samples, and one that is taken half a sample off their grid. -/
def halfOff : Recording := insert ⟨5 / 2, 1, [9]⟩ (insert ⟨0, 1, [1, 2]⟩ [])

theorem halfOff_extends_iff : ∃ k : Nat, slot 0 1 ⟨5 / 2, 1, [9]⟩ + (0 : Nat) = k ∧
    (k < 3 ↔ ∃ q ∈ halfOff.clipped ⟨0, 3⟩, k < reach 0 1 q.lastTime) := by
  have hrates : ∀ s ∈ halfOff, s.rate.isFinite = true ∧ (0 : Time).lt s.rate = true := by
    decide +kernel
  have hwave : halfOff.wave ⟨0, 3⟩ 100 = some ⟨0, 1, [1, 2, noData]⟩ := by decide +kernel
  have hpiece : ⟨5 / 2, 1, [9]⟩ ∈ halfOff.clipped ⟨0, 3⟩ := by decide +kernel
  exact wave_extends_iff hrates hwave (by decide) hpiece 0

/-- The last sample is in the window, and the wave is far from its cap; still it is not there. -/
theorem halfOff_wave_drops : ∃ w p, halfOff.wave ⟨0, 3⟩ 100 = some w ∧ w.length < 100 ∧
    (∀ s ∈ halfOff, s.start.isFinite = true ∧ s.rate.isFinite = true ∧ (0 : Time).lt s.rate = true) ∧
    p ∈ halfOff.clipped ⟨0, 3⟩ ∧ p.rate.numEq w.rate = true ∧ p.samples[0]? = some 9 ∧
    ¬ slot w.start w.rate p + 0 < w.length ∧ 9 ∉ w.samples := by
  refine ⟨⟨0, 1, [1, 2, noData]⟩, ⟨5 / 2, 1, [9]⟩, ?_⟩
  decide +kernel

end Seismic.Recording
