import Seismic.Proofs.Extent
import Seismic.Proofs.Representable

/-!
# Gaps — the stretches between readings

The gaps of a window are found in one walk over the readings of its pieces, one piece after the
other. Each reading moves a cursor to the end of its sample period, and one well beyond the cursor
ends a gap. The cursor never goes back. So a reading that is walked late, since its piece starts
late, may lie in a gap that has been found by then.

* **`Recording.gapsFrom_append`**: the walk may be cut anywhere;
* **`Recording.start_lt_stop_of_mem_gapsFrom`**, **`ordered_gapsFrom`**: gaps are not empty, and
  each lies behind the one before it;
* **`Recording.contains_gapsFrom`**: no gap found from a reading on contains it, unless its sample
  period is too short to move the cursor;
* **`Recording.gaps_contain_iff`**: so a reading is in a gap only if that was found before;
* **`Recording.mem_walked_iff`**, **`exists_walked_of_stored`**: which readings are walked, and when a
  stored one is walked at its own time.
-/

namespace Seismic

/-- Whether a time is in a span, the end of which does not belong to it. -/
def Span.Contains (s : Span Time) (t : Time) : Prop := s.start.le t = true ∧ t.lt s.stop = true

instance (s : Span Time) (t : Time) : Decidable (s.Contains t) :=
  inferInstanceAs (Decidable (_ ∧ _))

theorem Span.contains_congr {t t' : Time} (h : t.numEq t' = true) (gap : Span Time) :
    gap.Contains t ↔ gap.Contains t' := by
  obtain ⟨hle, hge⟩ := Binary64.numEq_iff_le.mp h
  constructor
  · rintro ⟨hstart, hstop⟩
    exact ⟨Binary64.le_trans hstart hle, Binary64.lt_of_le_of_lt hge hstop⟩
  · rintro ⟨hstart, hstop⟩
    exact ⟨Binary64.le_trans hstart hge, Binary64.lt_of_le_of_lt hle hstop⟩

namespace Recording

variable {r : Recording} {window gap : Span Time} {stop cursor t : Time}

/-! ## The walk -/

/-- The gap from `cursor` to `t`, if that is one. -/
def gapTo (cursor t : Time) : List (Span Time) :=
  if Scalar.lt Scalar.millionth (t - cursor) then [⟨cursor, t⟩] else []

/-- Where some readings leave the cursor. -/
def cursorAfter (cursor : Time) (readings : List (Time × Time)) : Time :=
  readings.foldl (fun cursor x => cursor.max (x.1 + x.2)) cursor

/-- The gaps that end at one of the readings. -/
def gapsUpTo : Time → List (Time × Time) → List (Span Time)
  | _, [] => []
  | cursor, x :: rest => gapTo cursor x.1 ++ gapsUpTo (cursor.max (x.1 + x.2)) rest

/-- The readings in a window in the order of the walk, each with its sample period. -/
def walked (r : Recording) (window : Span Time) : List (Time × Time) :=
  (r.clipped window).flatMap fun piece =>
    piece.readings.map fun reading => (reading.1, 1 / piece.rate)

theorem gapsFrom_cons (stop cursor : Time) (x : Time × Time) (rest : List (Time × Time)) :
    gapsFrom stop cursor (x :: rest) =
      gapTo cursor x.1 ++ gapsFrom stop (cursor.max (x.1 + x.2)) rest := by
  unfold gapTo
  rw [gapsFrom]
  split <;> rfl

/-- **The walk may be cut anywhere**: it goes on from where the cursor is. -/
theorem gapsFrom_append (stop cursor : Time) (before behind : List (Time × Time)) :
    gapsFrom stop cursor (before ++ behind) =
      gapsUpTo cursor before ++ gapsFrom stop (cursorAfter cursor before) behind := by
  -- By induction on the readings in front, each of which may find one gap and moves the cursor.
  induction before generalizing cursor with
  | nil => rfl
  | cons x rest ih =>
    rw [List.cons_append, gapsFrom_cons, ih, gapsUpTo, List.append_assoc]
    rfl

theorem gaps_eq_append {before behind : List (Time × Time)}
    (h : r.walked window = before ++ behind) :
    r.gaps window = gapsUpTo window.start before ++
      gapsFrom window.stop (cursorAfter window.start before) behind := by
  rw [← gapsFrom_append, ← h]
  rfl

/-! ## Gaps in order -/

theorem mem_gapTo (h : gap ∈ gapTo cursor t) :
    gap = ⟨cursor, t⟩ ∧ cursor.lt t = true := by
  unfold gapTo at h
  split at h
  · next hwide =>
    have hmillionth : 0 ≤ (Scalar.millionth : Time).rank := by decide +kernel
    exact ⟨List.mem_singleton.mp h, Binary64.lt_of_lt_sub hmillionth hwide⟩
  · cases h

theorem pairwise_gapTo (R : Span Time → Span Time → Prop) : (gapTo cursor t).Pairwise R := by
  unfold gapTo
  split
  · exact List.pairwise_singleton _ _
  · exact List.Pairwise.nil

/-- No gap begins before the cursor. -/
theorem le_start_of_mem_gapsFrom {readings : List (Time × Time)} (hcursor : cursor.isNaN = false)
    (h : gap ∈ gapsFrom stop cursor readings) : cursor.le gap.start = true := by
  -- By induction on the readings: the cursor is a number throughout, and moves forward.
  induction readings generalizing cursor with
  | nil =>
    obtain ⟨rfl, -⟩ := mem_gapTo h
    exact Binary64.le_refl hcursor
  | cons x rest ih =>
    rw [gapsFrom_cons] at h
    rcases List.mem_append.mp h with hfirst | hlater
    · obtain ⟨rfl, -⟩ := mem_gapTo hfirst
      exact Binary64.le_refl hcursor
    · have hmoved := Binary64.le_max_left hcursor (x.1 + x.2)
      exact Binary64.le_trans hmoved (ih (Binary64.isNaN_of_le hmoved).2 hlater)

/-- No gap behind a reading begins before the end of its sample period. -/
theorem period_le_start {x : Time × Time} {rest : List (Time × Time)}
    (hx : x.1.le (x.1 + x.2) = true) (h : gap ∈ gapsFrom stop (cursor.max (x.1 + x.2)) rest) :
    (x.1 + x.2).le gap.start = true := by
  have hle := Binary64.le_max_right cursor (Binary64.isNaN_of_le hx).2
  exact Binary64.le_trans hle (le_start_of_mem_gapsFrom (Binary64.isNaN_of_le hle).2 h)

theorem start_lt_stop_of_mem_gapsFrom {readings : List (Time × Time)}
    (h : gap ∈ gapsFrom stop cursor readings) : gap.start.lt gap.stop = true := by
  induction readings generalizing cursor with
  | nil =>
    obtain ⟨rfl, hlt⟩ := mem_gapTo h
    exact hlt
  | cons x rest ih =>
    rw [gapsFrom_cons] at h
    rcases List.mem_append.mp h with hfirst | hlater
    · obtain ⟨rfl, hlt⟩ := mem_gapTo hfirst
      exact hlt
    · exact ih hlater

/-- **Each gap lies behind the one before it**, if no sample period goes back. -/
theorem ordered_gapsFrom {readings : List (Time × Time)}
    (hperiods : ∀ x ∈ readings, x.1.le (x.1 + x.2) = true) :
    (gapsFrom stop cursor readings).Pairwise fun gap later => gap.stop.le later.start = true := by
  induction readings generalizing cursor with
  | nil => exact pairwise_gapTo _
  | cons x rest ih =>
    obtain ⟨hx, hrest⟩ := List.forall_mem_cons.mp hperiods
    rw [gapsFrom_cons, List.pairwise_append]
    refine ⟨pairwise_gapTo _, ih hrest, fun gap hgap later hlater => ?_⟩
    -- A gap ends where its reading is, and later ones begin behind the sample period of that.
    obtain ⟨rfl, -⟩ := mem_gapTo hgap
    exact Binary64.le_trans hx (period_le_start hx hlater)

/-! ## Gaps and readings -/

theorem stop_of_mem_gapsUpTo {readings : List (Time × Time)}
    (h : gap ∈ gapsUpTo cursor readings) : ∃ x ∈ readings, gap.stop = x.1 := by
  induction readings generalizing cursor with
  | nil => cases h
  | cons x rest ih =>
    rcases List.mem_append.mp h with hfirst | hlater
    · obtain ⟨rfl, -⟩ := mem_gapTo hfirst
      exact ⟨x, List.mem_cons_self, rfl⟩
    · obtain ⟨y, hy, hstop⟩ := ih hlater
      exact ⟨y, List.mem_cons_of_mem x hy, hstop⟩

/-- **A gap found from a reading on does not contain it**, but where rounding leaves nothing of its
sample period: there a gap may begin at the reading. -/
theorem contains_gapsFrom {x : Time × Time} {rest : List (Time × Time)}
    (hx : x.1.le (x.1 + x.2) = true) (hgap : gap ∈ gapsFrom stop cursor (x :: rest))
    (h : gap.Contains x.1) : x.1.numEq (x.1 + x.2) = true ∧ gap.start.numEq x.1 = true := by
  rw [gapsFrom_cons] at hgap
  -- The gap ends at the reading, which its end does not belong to, or is found behind it.
  rcases List.mem_append.mp hgap with hfirst | hlater
  · obtain ⟨rfl, -⟩ := mem_gapTo hfirst
    have hlt : x.1.rank < x.1.rank := Binary64.rank_lt_of_lt h.2
    exact absurd hlt (Int.lt_irrefl _)
  · have hperiod := period_le_start hx hlater
    exact ⟨Binary64.numEq_iff_le.mpr ⟨hx, Binary64.le_trans hperiod h.1⟩,
      Binary64.numEq_iff_le.mpr ⟨h.1, Binary64.le_trans hx hperiod⟩⟩

theorem contains_of_start_numEq (hgap : gap.start.lt gap.stop = true)
    (h : gap.start.numEq t = true) : gap.Contains t := by
  obtain ⟨hle, hge⟩ := Binary64.numEq_iff_le.mp h
  exact ⟨hle, Binary64.lt_of_le_of_lt hge hgap⟩

/-! ## Sample periods -/

theorem isNaN_add_of_nonneg (ht : t.isFinite = true ∨ t = .infinity false) {period : Time}
    (hperiod : (Binary64.zero false).le period = true) : (t + period).isNaN = false := by
  rcases ht with ht | rfl
  · exact Binary64.isNaN_add ht (Binary64.isNaN_of_le hperiod).2
  · rcases Binary64.finite_or_infinity_of_le (.inl rfl) hperiod with hfinite | rfl
    · rw [Binary64.infinity_add false hfinite]
      rfl
    · decide

section Rate

variable {rate : Time} (hrate : rate.isFinite = true) (hpos : 0 < rate.rank)
include hrate hpos

/-- Some samples later it is not earlier. -/
theorem le_add_quotient (ht : t.isFinite = true ∨ t = .infinity false) (n : Nat) :
    t.le (t + Scalar.ofNat n / rate) = true := by
  have hnonneg := Binary64.div_le_div hrate hpos (Binary64.zero_le_ofNat n)
  rw [Binary64.zero_div hrate hpos] at hnonneg
  rw [Binary64.scalar_ofNat]
  exact Binary64.le_add hnonneg (isNaN_add_of_nonneg ht hnonneg)

end Rate

/-- **What is walked** are the readings with an index inside the window, segment by segment. The
time of each is counted from the start of its piece. -/
theorem mem_walked_iff {x : Time × Time} :
    x ∈ r.walked window ↔ ∃ s ∈ r, ∃ last,
      s.slice window = some (s.cut (s.firstIndex window) last) ∧
      ∃ i ≤ last - s.firstIndex window, ∃ n, s.samples[s.firstIndex window + i]? = some n ∧
        n ≠ noData ∧ x = ((s.cut (s.firstIndex window) last).sampleTime i, 1 / s.rate) := by
  constructor
  · intro hx
    obtain ⟨p, hp, hx⟩ := List.mem_flatMap.mp hx
    obtain ⟨⟨t, n⟩, hreading, rfl⟩ := List.mem_map.mp hx
    obtain ⟨i, hsample, hn, rfl⟩ := Segment.mem_readings_iff.mp hreading
    obtain ⟨s, hs, hslice⟩ := List.mem_filterMap.mp hp
    obtain ⟨-, last, hle, hlast, rfl⟩ := Segment.cut_of_slice hslice
    have hlength := Segment.length_cut hle hlast
    have hi : i < (s.cut (s.firstIndex window) last).length := (List.getElem?_eq_some_iff.mp hsample).1
    have hinside : i ≤ last - s.firstIndex window := by omega
    rw [Segment.getElem?_cut hinside] at hsample
    exact ⟨s, hs, last, hslice, i, hinside, n, hsample, hn, rfl⟩
  · rintro ⟨s, hs, last, hslice, i, hinside, n, hsample, hn, rfl⟩
    rw [← Segment.getElem?_cut hinside] at hsample
    exact List.mem_flatMap.mpr ⟨_, List.mem_filterMap.mpr ⟨s, hs, hslice⟩,
      List.mem_map.mpr ⟨_, Segment.mem_readings_iff.mpr ⟨i, hsample, hn, rfl⟩, rfl⟩⟩

/-- The sample periods of a recording do not go back if its rates are positive. -/
theorem le_period (hrates : ∀ s ∈ r, s.start.isFinite = true ∧ s.rate.isFinite = true ∧
    (0 : Time).lt s.rate = true) {x : Time × Time} (hx : x ∈ r.walked window) :
    x.1.le (x.1 + x.2) = true := by
  obtain ⟨s, hs, last, -, i, -, n, -, -, rfl⟩ := mem_walked_iff.mp hx
  obtain ⟨hstart, hrate, hpositive⟩ := hrates s hs
  have hpos := Binary64.rank_pos_of_lt hpositive
  -- From the segment to its piece, from there to the sample, and on to the next.
  have hpiece : s.start.le (s.cut (s.firstIndex window) last).start = true :=
    le_add_quotient hrate hpos (.inl hstart) (s.firstIndex window)
  have hpieceStart := Binary64.finite_or_infinity_of_le (.inl hstart) hpiece
  have hsample : (s.cut (s.firstIndex window) last).start.le
      ((s.cut (s.firstIndex window) last).sampleTime i) = true :=
    le_add_quotient hrate hpos hpieceStart i
  have hperiod := le_add_quotient hrate hpos
    (Binary64.finite_or_infinity_of_le hpieceStart hsample) 1
  rw [Binary64.scalar_ofNat] at hperiod
  exact hperiod

/-! ## Walked times and stored times

The start of a piece is rounded, and what is counted from it is rounded again. In exact arithmetic a
sample keeps its time for all that (`Segment.sampleTime_cut`). Here it does if nothing is cut off
before it, which is so if the window starts no later than the segment. -/

section Uncut

variable {s : Segment Time} (hstart : s.start.isFinite = true) (hrate : s.rate.isFinite = true)
  (hpos : 0 < s.rate.rank)
include hstart hrate hpos

theorem firstIndex_eq_zero (hfront : window.start.le s.start = true) :
    s.firstIndex window = 0 := by
  -- The index is rounded up from a distance that is not positive, less the tolerance; so all of
  -- this is no greater than for the distance zero.
  have hself : (s.start - s.start).le (Binary64.zero false) = true := by
    have hnumber : (s.start - s.start).isNaN = false :=
      Binary64.isNaN_sub hstart (Binary64.isNaN_of_isFinite hstart)
    rw [Binary64.le_iff_rank hnumber rfl, Binary64.rank_sub_self hnumber]
    exact Int.le_refl 0
  have hdistance := Binary64.le_trans (Binary64.sub_le_sub hstart hfront) hself
  have hperiods := Binary64.mul_le_mul hrate hpos hdistance
  rw [Binary64.zero_mul hrate hpos] at hperiods
  have hceil := Binary64.ceil_le_ceil (Binary64.sub_le_sub isFinite_millionth hperiods)
  have hindex : s.firstIndex window ≤
      Scalar.toIndex (Binary64.zero false - Scalar.millionth).ceil :=
    Int.toNat_le_toNat (Binary64.clipInt_le_clipInt (by decide) hceil)
  have hzero : Scalar.toIndex (Binary64.zero false - Scalar.millionth).ceil = 0 := by
    decide +kernel
  exact Nat.le_zero.mp (hindex.trans_eq hzero)

/-- **A sample before which nothing is cut off keeps its time.** -/
theorem sampleTime_cut_numEq (last i : Nat) :
    ((s.cut 0 last).sampleTime i).numEq (s.sampleTime i) = true := by
  have hfront : s.sampleTime 0 = s.start + Binary64.zero false := by
    have hzero : Binary64.ofNat 0 = Binary64.zero false := by decide +kernel
    rw [Segment.sampleTime, Binary64.scalar_ofNat, hzero, Binary64.zero_div hrate hpos]
  -- The piece starts at the time of its first sample, which is the start but for the sign of a
  -- zero.
  have hpiece : (s.sampleTime 0).numEq s.start = true := by
    rw [hfront]
    exact Binary64.add_zero_numEq hstart
  have hperiods : (Scalar.ofNat i / s.rate).isNaN = false := by
    rw [Binary64.scalar_ofNat]
    exact (Binary64.isNaN_of_le (Binary64.div_le_div hrate hpos (Binary64.zero_le_ofNat i))).2
  exact Binary64.add_numEq_add hstart hperiods hpiece

/-- **So a stored reading of such a segment is walked, and lies in the gaps in which it lies as
walked.** -/
theorem exists_walked_of_stored (hs : s ∈ r) (hfront : window.start.le s.start = true)
    {p : Segment Time} (hslice : s.slice window = some p) {i : Nat} (hi : i < p.length) {n : Int32}
    (hsample : s.samples[i]? = some n) (hn : n ≠ noData) :
    ∃ x ∈ r.walked window, ∀ gap : Span Time, gap.Contains (s.sampleTime i) ↔ gap.Contains x.1 := by
  have hfirst := firstIndex_eq_zero hstart hrate hpos hfront
  obtain ⟨-, last, hle, hlast, rfl⟩ := Segment.cut_of_slice hslice
  have hlength := Segment.length_cut hle hlast
  have hinside : i ≤ last - s.firstIndex window := by omega
  rw [← Nat.zero_add i, ← hfirst] at hsample
  refine ⟨_, mem_walked_iff.mpr ⟨s, hs, last, hslice, i, hinside, n, hsample, hn, rfl⟩, fun gap => ?_⟩
  rw [hfirst]
  exact (Span.contains_congr (sampleTime_cut_numEq hstart hrate hpos last i) gap).symm

end Uncut

/-! ## Gaps of a window -/

section Rates

variable (hrates : ∀ s ∈ r, s.start.isFinite = true ∧ s.rate.isFinite = true ∧
  (0 : Time).lt s.rate = true)
include hrates

/-- A gap that contains a reading was found before, or begins at it. -/
theorem contains_gaps {before behind : List (Time × Time)} {x : Time × Time}
    (hwalked : r.walked window = before ++ x :: behind) (hgap : gap ∈ r.gaps window)
    (h : gap.Contains x.1) : gap ∈ gapsUpTo window.start before ∨
      (x.1.numEq (x.1 + x.2) = true ∧ gap.start.numEq x.1 = true) := by
  have hx : x ∈ r.walked window := by
    rw [hwalked]
    exact List.mem_append_right before List.mem_cons_self
  rw [gaps_eq_append hwalked] at hgap
  rcases List.mem_append.mp hgap with hbefore | hbehind
  · exact .inl hbefore
  · exact .inr (contains_gapsFrom (le_period hrates hx) hbehind h)

theorem exists_contains_gaps_iff {before behind : List (Time × Time)} {x : Time × Time}
    (hwalked : r.walked window = before ++ x :: behind) :
    (∃ gap ∈ r.gaps window, gap.Contains x.1) ↔
      (∃ gap ∈ gapsUpTo window.start before, gap.Contains x.1) ∨
      (x.1.numEq (x.1 + x.2) = true ∧ ∃ gap ∈ r.gaps window, gap.start.numEq x.1 = true) := by
  constructor
  · rintro ⟨gap, hgap, h⟩
    rcases contains_gaps hrates hwalked hgap h with hbefore | ⟨hlost, hstart⟩
    · exact .inl ⟨gap, hbefore, h⟩
    · exact .inr ⟨hlost, gap, hgap, hstart⟩
  · rintro (⟨gap, hgap, h⟩ | ⟨-, gap, hgap, hstart⟩)
    · refine ⟨gap, ?_, h⟩
      rw [gaps_eq_append hwalked]
      exact List.mem_append_left _ hgap
    · exact ⟨gap, hgap, contains_of_start_numEq (start_lt_stop_of_mem_gapsFrom hgap) hstart⟩

/-- In a walk in the order of time, what was found before a reading ends before it. -/
theorem not_contains_of_pairwise
    (hsorted : (r.walked window).Pairwise fun x y => x.1.le y.1 = true)
    (hmoves : ∀ x ∈ r.walked window, x.1.lt (x.1 + x.2) = true) {x : Time × Time}
    (hx : x ∈ r.walked window) (hgap : gap ∈ r.gaps window) : ¬ gap.Contains x.1 := by
  intro h
  obtain ⟨before, behind, hwalked⟩ := List.append_of_mem hx
  -- A gap found before ends at an earlier reading, so it would have to end behind itself.
  rcases contains_gaps hrates hwalked hgap h with hbefore | ⟨hlost, -⟩
  · obtain ⟨y, hy, hstop⟩ := stop_of_mem_gapsUpTo hbefore
    rw [hwalked, List.pairwise_append] at hsorted
    have hle := hsorted.2.2 y hy x List.mem_cons_self
    have hlt := h.2
    rw [hstop] at hlt
    rw [Binary64.le_eq_false_of_lt hlt] at hle
    cases hle
  · have hle := (Binary64.numEq_iff_le.mp hlost).2
    rw [Binary64.le_eq_false_of_lt (hmoves x hx)] at hle
    cases hle

/-- **Gaps are not empty, and each lies behind the one before it. A reading is in a gap only if that
was found before the walk came to the reading**, or begins at it because rounding leaves nothing of
its sample period. So no gap contains a reading if the walk meets the readings in the order of their
times and each moves the cursor on. -/
theorem gaps_contain_iff :
    (∀ gap ∈ r.gaps window, gap.start.lt gap.stop = true) ∧
    (r.gaps window).Pairwise (fun gap later => gap.stop.le later.start = true) ∧
    (∀ before x behind, r.walked window = before ++ x :: behind →
      ((∃ gap ∈ r.gaps window, gap.Contains x.1) ↔
        (∃ gap ∈ gapsUpTo window.start before, gap.Contains x.1) ∨
        (x.1.numEq (x.1 + x.2) = true ∧
          ∃ gap ∈ r.gaps window, gap.start.numEq x.1 = true))) ∧
    ((r.walked window).Pairwise (fun x y => x.1.le y.1 = true) →
      (∀ x ∈ r.walked window, x.1.lt (x.1 + x.2) = true) →
      ∀ x ∈ r.walked window, ∀ gap ∈ r.gaps window, ¬ gap.Contains x.1) :=
  ⟨fun _ hgap => start_lt_stop_of_mem_gapsFrom hgap,
    ordered_gapsFrom fun _ hx => le_period hrates hx,
    fun _ _ _ hwalked => exists_contains_gaps_iff hrates hwalked,
    fun hsorted hmoves _ hx _ hgap => not_contains_of_pairwise hrates hsorted hmoves hx hgap⟩

end Rates

/-- A segment that misses all samples but the last, and one with the second of them. -/
def refilled : Recording := insert ⟨1, 1, [7]⟩ (insert ⟨0, 1, [noData, noData, noData, 1]⟩ [])

theorem gaps_contain_refilled :
    (∃ gap ∈ refilled.gaps ⟨0, 4⟩, gap.Contains 1) ↔
      (∃ gap ∈ gapsUpTo 0 [(3, 1)], gap.Contains 1) ∨
      ((1 : Time).numEq (1 + 1) = true ∧
        ∃ gap ∈ refilled.gaps ⟨0, 4⟩, gap.start.numEq 1 = true) := by
  have hrates : ∀ s ∈ refilled, s.start.isFinite = true ∧ s.rate.isFinite = true ∧
      (0 : Time).lt s.rate = true := by decide +kernel
  have hwalked : refilled.walked ⟨0, 4⟩ = [(3, 1)] ++ (1, 1) :: [] := by decide +kernel
  exact (gaps_contain_iff hrates).2.2.1 [(3, 1)] (1, 1) [] hwalked

/-- The sample at one second is stored, and in the window; still it lies in the one gap found. -/
theorem refilled_gaps_hide :
    (∀ s ∈ refilled, s.start.isFinite = true ∧ s.rate.isFinite = true ∧
      (0 : Time).lt s.rate = true) ∧
    ∃ s ∈ refilled, ∃ n, s.samples[0]? = some n ∧ n ≠ noData ∧ s.sampleTime 0 = 1 ∧
      (0 : Time).le (s.sampleTime 0) = true ∧ (s.sampleTime 0).le 4 = true ∧
      refilled.gaps ⟨0, 4⟩ = [⟨0, 3⟩] ∧ Span.Contains ⟨0, 3⟩ (s.sampleTime 0) := by
  refine ⟨by decide +kernel, ⟨1, 1, [7]⟩, by decide +kernel, 7, ?_⟩
  decide +kernel

end Recording

end Seismic
