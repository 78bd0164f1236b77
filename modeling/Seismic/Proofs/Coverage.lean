import Seismic.Proofs.Consistency
import Seismic.Proofs.Menus
import Seismic.Proofs.Representable

/-!
# Coverage — the extent of what is stored

The coverage of a channel goes from the earliest start of a segment to the latest sample. Empty
segments have a start and no samples, so the one end is taken over more segments than the other; and
a start or a sample beyond all numbers takes the whole coverage with it.

* **`Segment.sampleTime_mono`**: samples come in the order of their indices, rounded as they are;
* **`Recording.isSome_coverage_iff`**: when there is a coverage at all;
* **`Register.coverage_spans`**: of regular segments the coverage ends with the latest sample, and
  begins with the earliest one unless an empty segment starts before it;
* **`Archive.store_extends_iff`**: storing a segment extends the coverage, or leaves none.
-/

namespace Seismic

/-! ## Sample times -/

namespace Segment

variable {s : Segment Time}

/-- A segment whose samples are taken one after the other at finite times. It may be empty. -/
structure Regular (s : Segment Time) : Prop where
  start : s.start.isFinite = true
  rate : s.rate.isFinite = true
  positive : (0 : Time).lt s.rate = true
  times : ∀ i < s.length, (s.sampleTime i).isFinite = true

instance (s : Segment Time) : Decidable s.Regular :=
  decidable_of_iff (s.start.isFinite = true ∧ s.rate.isFinite = true ∧
      (0 : Time).lt s.rate = true ∧ ∀ i < s.length, (s.sampleTime i).isFinite = true)
    ⟨fun ⟨hstart, hrate, hpositive, htimes⟩ => ⟨hstart, hrate, hpositive, htimes⟩,
      fun h => ⟨h.start, h.rate, h.positive, h.times⟩⟩

/-- A segment that does not start below all numbers and has no last sample above all numbers. -/
structure Bounded (s : Segment Time) : Prop where
  start : s.start ≠ .infinity true
  stop : s.samples ≠ [] → s.lastTime ≠ .infinity false

theorem length_pos_iff : 0 < s.length ↔ s.samples ≠ [] := List.length_pos_iff

/-- **A later sample is not taken at an earlier time.** -/
theorem Regular.sampleTime_mono (h : s.Regular) {i j : Nat} (hij : i ≤ j) :
    (s.sampleTime i).le (s.sampleTime j) = true := by
  have hdistance := Binary64.div_le_div h.rate (Binary64.rank_pos_of_lt h.positive)
    (Binary64.ofNat_le_ofNat hij)
  have htime := Binary64.add_le_add h.start hdistance
  unfold sampleTime
  rw [Binary64.scalar_ofNat, Binary64.scalar_ofNat, Binary64.add_comm s.start,
    Binary64.add_comm s.start]
  exact htime

/-- The first sample is taken at the start. -/
theorem Regular.start_numEq (h : s.Regular) : s.start.numEq (s.sampleTime 0) = true := by
  have hzero : (Scalar.ofNat 0 : Time) = .zero false := by decide +kernel
  -- The quotient is zero, and adding zero moves no number, though it may turn the one zero into the
  -- other.
  have hrank : (s.sampleTime 0).rank = s.start.rank := by
    unfold sampleTime
    rw [hzero, Binary64.zero_div h.rate (Binary64.rank_pos_of_lt h.positive),
      Binary64.rank_add_zero h.start]
  have hstart := Binary64.isNaN_of_isFinite h.start
  have hnumber := (Binary64.isNaN_of_le (h.sampleTime_mono (Nat.le_refl 0))).1
  rw [Binary64.numEq_iff_le, Binary64.le_iff_rank hstart hnumber,
    Binary64.le_iff_rank hnumber hstart, hrank]
  exact ⟨Int.le_refl _, Int.le_refl _⟩

/-- No sample is taken before the start. -/
theorem Regular.start_le (h : s.Regular) (i : Nat) : s.start.le (s.sampleTime i) = true :=
  Binary64.le_trans (Binary64.numEq_iff_le.mp h.start_numEq).1 (h.sampleTime_mono (Nat.zero_le i))

end Segment

namespace Recording

variable {r : Recording} {span : Span Time}

/-- The time of a sample of one of the segments. The two zeros are one time. -/
def SampledAt (segments : List (Segment Time)) (t : Time) : Prop :=
  ∃ s ∈ segments, ∃ i < s.length, t.numEq (s.sampleTime i) = true

/-- The start of one of the segments, with samples or without. -/
def StartedAt (segments : List (Segment Time)) (t : Time) : Prop :=
  ∃ s ∈ segments, s.start = t

/-! ## The two ends -/

def starts (r : Recording) : List Time := r.map (·.start)

def lastTimes (r : Recording) : List Time :=
  (r.filter (!·.samples.isEmpty)).map (·.lastTime)

theorem mem_starts_iff {t : Time} : t ∈ r.starts ↔ ∃ s ∈ r, s.start = t := List.mem_map

theorem mem_lastTimes_iff {t : Time} :
    t ∈ r.lastTimes ↔ ∃ s ∈ r, s.samples ≠ [] ∧ s.lastTime = t := by
  unfold lastTimes
  simp only [List.mem_map, List.mem_filter, Bool.not_eq_true', List.isEmpty_eq_false_iff, and_assoc]

/-- A coverage is the least start and the latest last sample, and both are finite. -/
theorem coverage_eq_some_iff : r.coverage = some span ↔
    span = ⟨r.starts.foldl Binary64.min (.infinity false),
      r.lastTimes.foldl Binary64.max (.infinity true)⟩ ∧
    span.start.isFinite = true ∧ span.stop.isFinite = true := by
  unfold coverage
  simp only [Option.ite_none_right_eq_some, Bool.and_eq_true, Option.some.injEq]
  constructor
  · rintro ⟨hfinite, rfl⟩
    exact ⟨rfl, hfinite⟩
  · rintro ⟨rfl, hfinite⟩
    exact ⟨hfinite, rfl⟩

/-- **When there is a coverage**: some start and some last sample are finite, no segment starts at
minus infinity, and none has its last sample at plus infinity. -/
theorem isSome_coverage_iff : r.coverage.isSome = true ↔
    ((∃ s ∈ r, s.start.isFinite = true) ∧ ∀ s ∈ r, s.start ≠ .infinity true) ∧
    ((∃ s ∈ r, s.samples ≠ [] ∧ s.lastTime.isFinite = true) ∧
      ∀ s ∈ r, s.samples ≠ [] → s.lastTime ≠ .infinity false) := by
  have hstart := Binary64.isFinite_foldl_min_iff r.starts
  have hstop := Binary64.isFinite_foldl_max_iff r.lastTimes
  have hsome : r.coverage.isSome = true ↔
      (r.starts.foldl Binary64.min (.infinity false)).isFinite = true ∧
        (r.lastTimes.foldl Binary64.max (.infinity true)).isFinite = true := by
    rw [Option.isSome_iff_exists]
    simp only [coverage_eq_some_iff]
    constructor
    · rintro ⟨span, rfl, hfinite⟩
      exact hfinite
    · intro hfinite
      exact ⟨_, rfl, hfinite⟩
  rw [hsome, hstart, hstop]
  simp only [mem_starts_iff, mem_lastTimes_iff]
  grind

section Ends

variable (h : r.coverage = some span)
include h

/-- The coverage begins with the start of a segment. -/
theorem exists_start_of_coverage : ∃ s ∈ r, s.start = span.start := by
  obtain ⟨rfl, hstart, -⟩ := coverage_eq_some_iff.mp h
  rcases Binary64.foldl_min_mem r.starts (.infinity false) with hnone | hmem
  · dsimp only at hstart
    rw [hnone] at hstart
    exact absurd hstart (by decide)
  · exact mem_starts_iff.mp hmem

/-- It ends with the last sample of a segment. -/
theorem exists_lastTime_of_coverage : ∃ s ∈ r, s.samples ≠ [] ∧ s.lastTime = span.stop := by
  obtain ⟨rfl, -, hstop⟩ := coverage_eq_some_iff.mp h
  rcases Binary64.foldl_max_mem r.lastTimes (.infinity true) with hnone | hmem
  · dsimp only at hstop
    rw [hnone] at hstop
    exact absurd hstop (by decide)
  · exact mem_lastTimes_iff.mp hmem

/-- No segment starts before the coverage. -/
theorem coverage_start_le {s : Segment Time} (hs : s ∈ r) (hnumber : s.start.isNaN = false) :
    span.start.le s.start = true := by
  obtain ⟨rfl, -, -⟩ := coverage_eq_some_iff.mp h
  exact Binary64.foldl_min_le rfl (mem_starts_iff.mpr ⟨s, hs, rfl⟩) hnumber

/-- No segment ends behind it. -/
theorem le_coverage_stop {s : Segment Time} (hs : s ∈ r) (hsamples : s.samples ≠ [])
    (hnumber : s.lastTime.isNaN = false) : s.lastTime.le span.stop = true := by
  obtain ⟨rfl, -, -⟩ := coverage_eq_some_iff.mp h
  exact Binary64.le_foldl_max rfl (mem_lastTimes_iff.mpr ⟨s, hs, hsamples, rfl⟩) hnumber

theorem isFinite_of_coverage : span.start.isFinite = true ∧ span.stop.isFinite = true :=
  (coverage_eq_some_iff.mp h).2

end Ends

/-! ## One more segment -/

/-- A recording with a coverage keeps one exactly if the new segment is bounded. -/
theorem isSome_coverage_insert_iff (h : r.coverage.isSome = true) (segment : Segment Time) :
    (r.insert segment).coverage.isSome = true ↔ segment.Bounded := by
  have hmem (s : Segment Time) : s ∈ r.insert segment ↔ s = segment ∨ s ∈ r :=
    ((perm_insert segment r).mem_iff).trans List.mem_cons
  obtain ⟨⟨⟨first, hfirst, hstart⟩, hstarts⟩, ⟨last, hlast, hstop⟩, hstops⟩ :=
    isSome_coverage_iff.mp h
  -- The old segments have a finite start and a finite last sample already, so only the bounds are
  -- left to be asked of the new one.
  rw [isSome_coverage_iff]
  simp only [hmem]
  constructor
  · rintro ⟨⟨-, hstarts'⟩, -, hstops'⟩
    exact ⟨hstarts' segment (.inl rfl), hstops' segment (.inl rfl)⟩
  · rintro ⟨hstart', hstop'⟩
    refine ⟨⟨⟨first, .inr hfirst, hstart⟩, ?_⟩, ⟨last, .inr hlast, hstop⟩, ?_⟩
    · rintro s (rfl | hs)
      · exact hstart'
      · exact hstarts s hs
    · rintro s (rfl | hs)
      · exact hstop'
      · exact hstops s hs

/-- A recording with more segments has a coverage that is not smaller, if it has any. -/
theorem coverage_mono {r' : Recording} {span' : Span Time} (hsub : ∀ s ∈ r, s ∈ r')
    (h : r.coverage = some span) (h' : r'.coverage = some span') :
    span'.start.le span.start = true ∧ span.stop.le span'.stop = true := by
  obtain ⟨hstart, hstop⟩ := isFinite_of_coverage h
  -- The old ends belong to segments that are still there.
  constructor
  · obtain ⟨s, hs, heq⟩ := exists_start_of_coverage h
    rw [← heq] at hstart ⊢
    exact coverage_start_le h' (hsub s hs) (Binary64.isNaN_of_isFinite hstart)
  · obtain ⟨s, hs, hsamples, heq⟩ := exists_lastTime_of_coverage h
    rw [← heq] at hstop ⊢
    exact le_coverage_stop h' (hsub s hs) hsamples (Binary64.isNaN_of_isFinite hstop)

/-- **One more segment extends the coverage** if it is bounded, and else leaves none. -/
theorem coverage_insert_cases (h : r.coverage = some span) (segment : Segment Time) :
    (segment.Bounded ∧ ∃ span', (r.insert segment).coverage = some span' ∧
      span'.start.le span.start = true ∧ span.stop.le span'.stop = true) ∨
    (¬ segment.Bounded ∧ (r.insert segment).coverage = none) := by
  have hsome : r.coverage.isSome = true := by
    rw [h]
    rfl
  have hiff := isSome_coverage_insert_iff hsome segment
  cases hcoverage : (r.insert segment).coverage with
  | none =>
    rw [hcoverage] at hiff
    exact .inr ⟨fun hbounded => absurd (hiff.mpr hbounded) Bool.false_ne_true, rfl⟩
  | some span' =>
    rw [hcoverage] at hiff
    have hsub (s : Segment Time) (hs : s ∈ r) : s ∈ r.insert segment :=
      (perm_insert segment r).mem_iff.mpr (List.mem_cons_of_mem segment hs)
    exact .inl ⟨hiff.mp rfl, span', rfl, coverage_mono hsub h hcoverage⟩

/-! ## Regular segments -/

section Regular

variable (hregular : ∀ s ∈ r, s.Regular)
include hregular

/-- Regular segments have no coverage exactly if they have no samples at all. -/
theorem coverage_eq_none_iff : r.coverage = none ↔ ∀ s ∈ r, s.samples = [] := by
  rw [← Option.not_isSome_iff_eq_none, isSome_coverage_iff]
  have hlast (s : Segment Time) (hs : s ∈ r) (hsamples : s.samples ≠ []) :
      s.lastTime.isFinite = true := by
    have hlength := Segment.length_pos_iff.mpr hsamples
    exact (hregular s hs).times _ (by omega)
  constructor
  · intro hnot s hs
    refine Decidable.by_contra fun hsamples => hnot ⟨⟨⟨s, hs, (hregular s hs).start⟩, ?_⟩,
      ⟨s, hs, hsamples, hlast s hs hsamples⟩, ?_⟩
    · intro t ht heq
      have hfinite := (hregular t ht).start
      rw [heq] at hfinite
      exact absurd hfinite (by decide)
    · intro t ht htsamples heq
      have hfinite := hlast t ht htsamples
      rw [heq] at hfinite
      exact absurd hfinite (by decide)
  · rintro hempty ⟨-, ⟨s, hs, hsamples, -⟩, -⟩
    exact hsamples (hempty s hs)

/-- The coverage begins with the earliest start, of an empty segment or another. -/
theorem isEarliest_coverage_start (h : r.coverage = some span) :
    IsEarliest (StartedAt r) span.start := by
  refine ⟨exists_start_of_coverage h, ?_⟩
  rintro t ⟨s, hs, rfl⟩
  exact coverage_start_le h hs (Binary64.isNaN_of_isFinite (hregular s hs).start)

/-- **The coverage ends with the latest sample.** -/
theorem isLatest_coverage_stop (h : r.coverage = some span) :
    IsLatest (SampledAt r) span.stop := by
  constructor
  · obtain ⟨s, hs, hsamples, heq⟩ := exists_lastTime_of_coverage h
    have hlength := Segment.length_pos_iff.mpr hsamples
    refine ⟨s, hs, s.length - 1, by omega, ?_⟩
    show span.stop.numEq s.lastTime = true
    rw [heq]
    have hle := Binary64.le_refl (Binary64.isNaN_of_isFinite (isFinite_of_coverage h).2)
    exact Binary64.numEq_iff_le.mpr ⟨hle, hle⟩
  · rintro t ⟨s, hs, i, hi, ht⟩
    -- Any sample is no later than the last one of its segment, and that no later than the end.
    have hsamples := Segment.length_pos_iff.mp (Nat.zero_lt_of_lt hi)
    have hmono := (hregular s hs).sampleTime_mono (show i ≤ s.length - 1 by omega)
    have hlast := le_coverage_stop h hs hsamples (Binary64.isNaN_of_le hmono).2
    exact Binary64.le_trans (Binary64.numEq_iff_le.mp ht).1 (Binary64.le_trans hmono hlast)

/-- **It begins with the earliest sample if no empty segment starts before all samples.** -/
theorem isEarliest_sample_iff (h : r.coverage = some span) :
    IsEarliest (SampledAt r) span.start ↔
      ∀ e ∈ r, e.samples = [] → ∃ s ∈ r, s.samples ≠ [] ∧ s.start.le e.start = true := by
  obtain ⟨⟨first, hfirst, heq⟩, hleast⟩ := isEarliest_coverage_start hregular h
  -- The coverage begins with some start. If that is a sample, it is no later than the start of an
  -- empty segment; and if no empty segment is alone in front, some sample is as early as it.
  constructor
  · rintro ⟨⟨s, hs, i, hi, ht⟩, -⟩ e he -
    have hsample := Binary64.le_trans ((hregular s hs).start_le i) (Binary64.numEq_iff_le.mp ht).2
    exact ⟨s, hs, Segment.length_pos_iff.mp (Nat.zero_lt_of_lt hi),
      Binary64.le_trans hsample (hleast e.start ⟨e, he, rfl⟩)⟩
  · intro hcover
    have hsampled : ∃ s ∈ r, s.samples ≠ [] ∧ s.start.le span.start = true := by
      rw [← heq]
      by_cases hempty : first.samples = []
      · exact hcover first hfirst hempty
      · have hnumber := Binary64.isNaN_of_isFinite (hregular first hfirst).start
        exact ⟨first, hfirst, hempty, Binary64.le_refl hnumber⟩
    obtain ⟨s, hs, hsamples, hle⟩ := hsampled
    obtain ⟨hbelow, habove⟩ := Binary64.numEq_iff_le.mp (hregular s hs).start_numEq
    refine ⟨⟨s, hs, 0, Segment.length_pos_iff.mpr hsamples, Binary64.numEq_iff_le.mpr ⟨?_, ?_⟩⟩, ?_⟩
    · exact Binary64.le_trans (hleast s.start ⟨s, hs, rfl⟩) hbelow
    · exact Binary64.le_trans habove hle
    · rintro t ⟨u, hu, i, -, ht⟩
      have hstart := hleast u.start ⟨u, hu, rfl⟩
      exact Binary64.le_trans hstart
        (Binary64.le_trans ((hregular u hu).start_le i) (Binary64.numEq_iff_le.mp ht).2)

end Regular

/-- **What the coverage of regular segments tells of them.** -/
structure Spans (segments : List (Segment Time)) (coverage : Option (Span Time)) : Prop where
  none_iff : coverage = none ↔ ∀ s ∈ segments, s.samples = []
  latest : ∀ span, coverage = some span → IsLatest (SampledAt segments) span.stop
  first : ∀ span, coverage = some span → IsEarliest (StartedAt segments) span.start
  earliest_iff : ∀ span, coverage = some span → (IsEarliest (SampledAt segments) span.start ↔
    ∀ e ∈ segments, e.samples = [] → ∃ s ∈ segments, s.samples ≠ [] ∧ s.start.le e.start = true)

theorem spans_coverage {segments : List (Segment Time)} (hmem : ∀ s, s ∈ segments ↔ s ∈ r)
    (hregular : ∀ s ∈ segments, s.Regular) : Spans segments r.coverage := by
  have hsampled : SampledAt segments = SampledAt r := by
    unfold SampledAt
    simp only [hmem]
  have hstarted : StartedAt segments = StartedAt r := by
    unfold StartedAt
    simp only [hmem]
  simp only [hmem] at hregular
  exact {
    none_iff := by
      simp only [hmem]
      exact coverage_eq_none_iff hregular
    latest := fun span h => hsampled ▸ isLatest_coverage_stop hregular h
    first := fun span h => hstarted ▸ isEarliest_coverage_start hregular h
    earliest_iff := fun span h => by
      simp only [hmem, hsampled]
      exact isEarliest_sample_iff hregular h }

end Recording

/-! ## Runs -/

namespace Register

open Archive (sidLimit segmentsOf)

/-- **After every run the coverage of a channel spans what was stored for it**, if that was regular.
It goes up to the latest sample, and from the earliest start of a segment, which is the earliest
sample exactly if no empty segment starts before all samples. -/
theorem coverage_spans (changes : List Change) (hfew : (run {} changes).2.ids.length < sidLimit)
    {sid : Int32} {held : Holding} (hheld : (run {} changes).2.channels.find? sid = some held)
    (hregular : ∀ s ∈ segmentsOf sid (log {} changes), s.Regular) :
    Recording.Spans (segmentsOf sid (log {} changes)) held.registered.span ∧
      (Archive.run {} changes).2.coverage sid.toInt = held.registered.span := by
  -- The run is tracked by the archive, whose recordings hold what was stored in another order.
  obtain ⟨-, htracks⟩ := tracks_run ⟨represents_empty, Archive.orderly_empty⟩ changes hfew
  have hsound := htracks.sound (htracks.represents.length_ids ▸ hfew) hheld
  constructor
  · rw [hsound.span]
    exact Recording.spans_coverage (fun s => hsound.kept.mem_iff.symm) hregular
  · rw [htracks.represents.held] at hheld
    obtain ⟨c, hc, rfl⟩ := Option.map_eq_some_iff.mp hheld
    show Recording.coverage (Archive.recording _ _) = c.recording.coverage
    rw [Archive.recording, hc]
    rfl

/-- A channel gets a segment without samples and then one with two. -/
def emptyFirst : List Change := [
  .addChannel ⟨"AKV", "EHZ", "AV", none⟩,
  .putWave 1 ⟨0, 1, []⟩,
  .putWave 1 ⟨10, 1, [1, 2]⟩]

theorem coverage_spans_emptyFirst :
    Recording.Spans [⟨0, 1, []⟩, ⟨10, 1, [1, 2]⟩] (some ⟨0, 11⟩) := by
  have hlog : segmentsOf 1 (log {} emptyFirst) = [⟨0, 1, []⟩, ⟨10, 1, [1, 2]⟩] := by
    decide +kernel
  have hsome : ((run {} emptyFirst).2.channels.find? 1).isSome = true := by decide +kernel
  have hspan : (Archive.run {} emptyFirst).2.coverage 1 = some ⟨0, 11⟩ := by decide +kernel
  obtain ⟨held, hheld⟩ := Option.isSome_iff_exists.mp hsome
  obtain ⟨hspans, hcoverage⟩ :=
    coverage_spans emptyFirst (by decide +kernel) hheld (by decide +kernel)
  rw [hlog, ← hcoverage] at hspans
  exact hspan ▸ hspans

/-- The first sample is taken at ten seconds; still the coverage begins at zero. -/
theorem emptyFirst_coverage_early :
    (∀ s ∈ segmentsOf 1 (log {} emptyFirst), s.Regular) ∧
      (Archive.run {} emptyFirst).2.coverage 1 = some ⟨0, 11⟩ ∧
      ¬ Recording.SampledAt (segmentsOf 1 (log {} emptyFirst)) 0 ∧
      IsEarliest (Recording.SampledAt (segmentsOf 1 (log {} emptyFirst))) 10 := by
  have hsamples : ∀ s ∈ segmentsOf 1 (log {} emptyFirst), ∀ i < s.length,
      (0 : Time).numEq (s.sampleTime i) = false ∧ (10 : Time).le (s.sampleTime i) = true := by
    decide +kernel
  refine ⟨by decide +kernel, by decide +kernel, ?_, ?_, ?_⟩
  · rintro ⟨s, hs, i, hi, ht⟩
    rw [(hsamples s hs i hi).1] at ht
    cases ht
  · exact ⟨⟨10, 1, [1, 2]⟩, by decide +kernel, 0, by decide, by decide +kernel⟩
  · rintro t ⟨s, hs, i, hi, ht⟩
    exact Binary64.le_trans (hsamples s hs i hi).2 (Binary64.numEq_iff_le.mp ht).2

end Register

namespace Archive

variable {a a' : Archive} {sid : Int} {span : Span Time} {segment : Segment Time}

/-- Storing inserts a segment into one recording and leaves the others alone. -/
theorem recording_of_store (h : a.store sid segment = .ok a') :
    a'.recording sid = (a.recording sid).insert segment ∧
      ∀ other, other ≠ sid → a'.recording other = a.recording other := by
  rcases a.store_cases sid segment with ⟨i, c, hc, rfl, hresult⟩ | ⟨-, hresult⟩
  · obtain rfl : a.modified i (StoredChannel.given segment) = a' := by
      rw [hresult] at h
      exact Except.ok.inj h
    unfold recording
    constructor
    · rw [stored?_modified, if_pos rfl, stored?_eq_some_iff.mpr ⟨i, rfl, hc⟩]
      rfl
    · intro other hother
      rw [stored?_modified, if_neg hother]
  · rw [hresult] at h
    cases h

/-- A channel without coverage is in no menu. -/
theorem sid_ne_of_mem_servable (hnone : a.coverage sid = none) {policy : Policy} {now : Time}
    {item : MenuItem} (hitem : item ∈ a.servable policy now) : (item.sid : Int) ≠ sid := by
  rintro rfl
  obtain ⟨i, c, hc, hsid, -, hspan⟩ := mem_servable_iff.mp hitem
  rw [hsid, coverage_of_getElem? hc] at hnone
  rw [hnone] at hspan
  cases hspan

/-- A request for it that is in order meets a gap. -/
theorem resolve_eq_gap_of_coverage (hnone : a.coverage sid = none) (policy : Policy) (now : Time)
    {requested : Span Time} (h : requested.start.lt requested.stop = true) :
    Window.resolve policy now requested (a.coverage sid) = .error .gap := by
  rw [Window.resolve_eq_gap_iff h, hnone]
  rfl

/-- **Storing a segment extends the coverage of its channel exactly if the segment is bounded.**
Another one leaves the channel without coverage: it is in no menu, and every request for it that is
in order meets a gap. The other channels keep their coverage. -/
theorem store_extends_iff (hcoverage : a.coverage sid = some span)
    (hstore : a.store sid segment = .ok a') :
    ((∃ span', a'.coverage sid = some span' ∧ span'.start.le span.start = true ∧
        span.stop.le span'.stop = true) ↔ segment.Bounded) ∧
      (¬ segment.Bounded → a'.coverage sid = none ∧
        (∀ policy now, ∀ item ∈ a'.servable policy now, (item.sid : Int) ≠ sid) ∧
        ∀ policy now requested, requested.start.lt requested.stop = true →
          Window.resolve policy now requested (a'.coverage sid) = .error .gap) ∧
      ∀ other, other ≠ sid → a'.coverage other = a.coverage other := by
  obtain ⟨hinsert, hothers⟩ := recording_of_store hstore
  have hafter : a'.coverage sid = ((a.recording sid).insert segment).coverage :=
    congrArg Recording.coverage hinsert
  have hkept (other : Int) (hother : other ≠ sid) : a'.coverage other = a.coverage other :=
    congrArg Recording.coverage (hothers other hother)
  -- One recording changes, and its coverage is extended or lost.
  rcases Recording.coverage_insert_cases hcoverage segment with
    ⟨hbounded, hextends⟩ | ⟨hunbounded, hnone⟩
  · rw [← hafter] at hextends
    exact ⟨iff_of_true hextends hbounded, fun hnot => absurd hbounded hnot, hkept⟩
  · rw [← hafter] at hnone
    refine ⟨iff_of_false ?_ hunbounded, fun _ => ⟨hnone, ?_, ?_⟩, hkept⟩
    · rintro ⟨span', hspan', -⟩
      rw [hnone] at hspan'
      cases hspan'
    · exact fun policy now item hitem => sid_ne_of_mem_servable hnone hitem
    · exact fun policy now requested h => resolve_eq_gap_of_coverage hnone policy now h

/-- A channel with three samples, the last of them at two seconds. -/
def threeStored : Archive :=
  (run {} [.addChannel ⟨"AKV", "EHZ", "AV", none⟩, .putWave 1 ⟨0, 1, [1, 2, 3]⟩]).2

theorem store_extends_threeStored :
    (∃ span, (threeStored.append 0 ⟨5, 1, [4]⟩).coverage 1 = some span ∧
      span.start.le 0 = true ∧ (2 : Time).le span.stop = true) ↔
    Segment.Bounded ⟨5, 1, [4]⟩ := by
  have hcoverage : threeStored.coverage 1 = some ⟨0, 2⟩ := by decide +kernel
  have hstore : threeStored.store 1 ⟨5, 1, [4]⟩ = .ok (threeStored.append 0 ⟨5, 1, [4]⟩) := by
    decide +kernel
  exact (store_extends_iff hcoverage hstore).1

/-- Two samples at the rate zero, the second of which is never taken, leave no coverage. -/
theorem threeStored_coverage_lost : ∃ a', threeStored.coverage 1 = some ⟨0, 2⟩ ∧
    threeStored.store 1 ⟨1, 0, [7, 7]⟩ = .ok a' ∧ a'.coverage 1 = none := by
  refine ⟨threeStored.append 0 ⟨1, 0, [7, 7]⟩, ?_⟩
  decide +kernel

end Archive

end Seismic
