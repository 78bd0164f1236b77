import Seismic.Archive.Query
import Seismic.Proofs.Gathering
import Seismic.Proofs.Keys

/-!
# Coarsening — coarse strip charts and fine ones

A coarse chart and a fine one of the same window are computed apart, each with quotients of its own.
They agree as long as the key of a time in the coarse chart is the key in the fine one, divided by
six and rounded down: a coarse row then merges six fine ones.

* **`Helicorder.key_coarse`**: this is so for the keys of times less than `2 ^ 52` seconds away, but
  for the negative times of so few units that the one quotient is rounded to zero and the other one
  is not;
* **`Helicorder.rowAt_iff`**: the rows of a chart by the times they bear;
* **`Archive.helicorder_merged`**: the coarse chart of a channel is merged from the fine one;
* **`Archive.helicorder_not_merged`**: among the exceptions the charts disagree.
-/

namespace Seismic

/-! ## Times of rows -/

namespace Binary64

/-- Whole numbers below `2 ^ 53` are told apart. -/
theorem rank_ofInt_lt {m n : Int} (hm : m.natAbs < 2 ^ 53) (hn : n.natAbs < 2 ^ 53) (h : m < n) :
    (ofInt m).rank < (ofInt n).rank := by
  have hone : (0 : Int) < unitsPerOne := Int.natCast_pos.mpr unitsPerOne_pos
  refine Int.not_le.mp fun hle => ?_
  have hunits := units_mono hle
  rw [(units_ofInt hm).2, (units_ofInt hn).2] at hunits
  have hlt := Int.mul_lt_mul_of_pos_right h hone
  omega

variable {d : Nat} {j k : Int}

/-- A product of whole numbers is rounded once, like the whole number itself. -/
theorem rank_ofInt_mul (hk : k.natAbs < 2 ^ 53) (hd : d < 2 ^ 53) :
    (ofInt k * ofNat d).rank = (ofInt (k * d)).rank := by
  obtain ⟨hkfinite, hkunits⟩ := units_ofInt hk
  obtain ⟨hdfinite, hdmagnitude⟩ := magnitude_ofNat hd
  have hdunits : (ofNat d).units = d * unitsPerOne := by
    rw [units_eq_magnitude (Int.natCast_nonneg _), hdmagnitude, Int.natCast_mul]
  have hproduct : k * unitsPerOne * (d * unitsPerOne) * ((1 : Nat) : Int) =
      k * d * unitsPerOne * unitsPerOne := by
    push_cast
    ring
  rw [show (ofInt k * ofNat d).rank = _ from rank_mul hkfinite hdfinite, hkunits, hdunits,
    rank_ofInt]
  -- Two quotients that are equal have the same rank, over whichever denominators.
  exact Int.le_antisymm (roundedRank_le unitsPerOne_pos Nat.one_pos (Int.le_of_eq hproduct))
    (roundedRank_le Nat.one_pos unitsPerOne_pos (Int.le_of_eq hproduct.symm))

/-- **No other whole number has the same multiple** as one that is far from where they are
rounded. -/
theorem eq_of_ofInt_mul_eq (hd : 0 < d) (hd' : d < 2 ^ 53)
    (hj : (j * d).natAbs + d < 2 ^ 53) (h : ofInt k * ofNat d = ofInt j * ofNat d) : k = j := by
  have hpos := rank_ofNat_pos hd
  have hfinite := (magnitude_ofNat hd').1
  have hmono {m n : Int} (hmn : m ≤ n) : (ofInt m * ofNat d).rank ≤ (ofInt n * ofNat d).rank :=
    rank_le_of_le (mul_le_mul hfinite hpos (ofInt_le_ofInt hmn))
  have hfactor (m : Int) : m.natAbs ≤ (m * d).natAbs := by
    rw [Int.natAbs_mul, Int.natAbs_natCast]
    exact Nat.le_mul_of_pos_right _ hd
  have hstep {m n : Int} (hm : (m * d).natAbs < 2 ^ 53) (hn : (n * d).natAbs < 2 ^ 53)
      (hmn : m < n) : (ofInt m * ofNat d).rank < (ofInt n * ofNat d).rank := by
    rw [rank_ofInt_mul (Nat.lt_of_le_of_lt (hfactor m) hm) hd',
      rank_ofInt_mul (Nat.lt_of_le_of_lt (hfactor n) hn) hd']
    exact rank_ofInt_lt hm hn (Int.mul_lt_mul_of_pos_right hmn (Int.natCast_pos.mpr hd))
  have hafter : (j + 1) * d = j * d + d := by ring
  have hbefore : (j - 1) * d = j * d - d := by ring
  -- The multiples next to that of `j` differ from it, and others are further away.
  rcases Int.lt_trichotomy k j with hlt | heq | hgt
  · have hle := hmono (show k ≤ j - 1 by omega)
    have hnext := hstep (m := j - 1) (n := j) (by omega) (by omega) (by omega)
    rw [h] at hle
    omega
  · exact heq
  · have hle := hmono (show j + 1 ≤ k by omega)
    have hnext := hstep (m := j) (n := j + 1) (by omega) (by omega) (by omega)
    rw [h] at hle
    omega

end Binary64

namespace Helicorder

/-! ## Keys -/

/-- A time less than `2 ^ 52` seconds from the epoch. -/
def Near (t : Time) : Prop := t.isFinite = true ∧ t.magnitude < 2 ^ 52 * Binary64.unitsPerOne

instance (t : Time) : Decidable (Near t) := inferInstanceAs (Decidable (_ ∧ _))

/-- A negative time of six to thirty units: sixty seconds go into it so few times that the quotient
is rounded to zero, and ten seconds do not. -/
def Split (t : Time) : Prop := -30 ≤ t.units ∧ t.units ≤ -6

instance (t : Time) : Decidable (Split t) := inferInstanceAs (Decidable (_ ∧ _))

variable {t : Time} {coarse : Bool} {pieces : List (Segment Time)} {k : Int}

/-- **The nested keys of a time.** -/
theorem key_coarse (hnear : Near t) (hsplit : ¬ Split t) :
    Bucket.key (interval true) t = Bucket.key (interval false) t / 6 := by
  obtain ⟨hfinite, hsmall⟩ := hnear
  have hmagnitude := Binary64.natAbs_units t
  unfold Split at hsplit
  show Bucket.key (Scalar.ofNat 60) t = Bucket.key (Scalar.ofNat 10) t / 6
  -- Up to five units both quotients are rounded to zero. From there on, but for the negative times
  -- that are left out, both keys are quotients rounded down, which nest.
  by_cases hfew : t.units < 0 ∧ t.magnitude ≤ 5
  · rw [Bucket.key_of_few_units (by decide) (by decide) hfinite (by omega),
      Bucket.key_of_few_units (by decide) (by decide) hfinite (by omega)]
    rfl
  · have hten : (0 : Int) ≤ (10 : Nat) * Binary64.unitsPerOne := by omega
    have hsixty : ((60 : Nat) : Int) * Binary64.unitsPerOne =
        (10 : Nat) * Binary64.unitsPerOne * 6 := by omega
    rw [Bucket.key_eq_ediv (by decide) (by decide) hfinite hsmall (by omega),
      Bucket.key_eq_ediv (by decide) (by decide) hfinite hsmall (by omega), hsixty,
      Int.ediv_ediv_of_nonneg hten]

/-- A key is not far from the times that have it. -/
theorem key_mul_le (hnear : Near t) {d : Nat} (hd : 0 < d) (hd' : d < 2 ^ 53) :
    (Bucket.key (Scalar.ofNat d) t * d).natAbs ≤ 2 ^ 52 + d := by
  obtain ⟨hfinite, hsmall⟩ := hnear
  have hmagnitude := Binary64.natAbs_units t
  have hone : (0 : Int) < Binary64.unitsPerOne := Int.natCast_pos.mpr Binary64.unitsPerOne_pos
  -- A key of zero is near, and any other is the quotient by the interval, rounded down.
  by_cases hfew : 2 * t.magnitude ≤ d
  · rw [Bucket.key_of_few_units hd hd' hfinite hfew, Int.zero_mul]
    omega
  · have hplace : (0 : Int) < d * Binary64.unitsPerOne := Int.mul_pos (by omega) hone
    have hlow := Int.ediv_mul_le t.units (Int.ne_of_gt hplace)
    have hhigh := Int.lt_ediv_add_one_mul_self t.units hplace
    rw [Bucket.key_eq_ediv hd hd' hfinite hsmall (by omega)]
    generalize t.units / (d * Binary64.unitsPerOne) = k at *
    rw [← Int.mul_assoc] at hlow hhigh
    have hbelow : k * d < 2 ^ 52 := by
      refine Int.lt_of_mul_lt_mul_right (a := (Binary64.unitsPerOne : Int)) ?_ (Int.le_of_lt hone)
      omega
    have habove : -2 ^ 52 < (k + 1) * d := by
      refine Int.lt_of_mul_lt_mul_right (a := (Binary64.unitsPerOne : Int)) ?_ (Int.le_of_lt hone)
      rw [Int.neg_mul]
      omega
    have hnext : (k + 1) * d = k * d + d := by ring
    omega

/-- So no other key has a row at the same time. -/
theorem eq_of_times {d : Nat} (hd : 0 < d ∧ d ≤ 60) (hnear : Near t)
    (h : (Scalar.ofInt k * Scalar.ofNat d : Time) =
      Scalar.ofInt (Bucket.key (Scalar.ofNat d) t) * Scalar.ofNat d) :
    k = Bucket.key (Scalar.ofNat d) t := by
  have hfar := key_mul_le hnear hd.1 (by omega)
  rw [Binary64.scalar_ofNat] at h hfar ⊢
  exact Binary64.eq_of_ofInt_mul_eq hd.1 (by omega) (by omega) h

/-! ## Rows -/

/-- A chart has a row for the interval with a key. The row bears the time at which it begins. -/
def RowAt (coarse : Bool) (chart : Option (List (HelicorderRow Time))) (k : Int)
    (row : HelicorderRow Time) : Prop :=
  ∃ rows, chart = some rows ∧ row ∈ rows ∧ row.time = Scalar.ofInt k * interval coarse

/-- The chart of pieces, if it has any rows. -/
def chart (coarse : Bool) (pieces : List (Segment Time)) : Option (List (HelicorderRow Time)) :=
  if (rows coarse pieces).isEmpty then none else some (rows coarse pieces)

theorem rowAt_chart_iff {r : HelicorderRow Time} : RowAt coarse (chart coarse pieces) k r ↔
    r ∈ rows coarse pieces ∧ r.time = Scalar.ofInt k * interval coarse := by
  unfold RowAt chart
  constructor
  · rintro ⟨list, hchart, hmem, htime⟩
    simp only [Option.ite_none_left_eq_some, Option.some.injEq] at hchart
    obtain ⟨-, rfl⟩ := hchart
    exact ⟨hmem, htime⟩
  · rintro ⟨hmem, htime⟩
    have hsome : (rows coarse pieces).isEmpty = false := by
      rw [List.isEmpty_eq_false_iff]
      exact List.ne_nil_of_mem hmem
    exact ⟨_, if_neg (by rw [hsome]; decide), hmem, htime⟩

/-- **The rows of a chart are made of the buckets with their keys**, and their times tell these
apart. -/
theorem rowAt_iff (hnear : ∀ reading ∈ pieces.flatMap Segment.readings, Near reading.1)
    {r : HelicorderRow Time} : RowAt coarse (chart coarse pieces) k r ↔
      ∃ b, (Bucket.gather (interval coarse) pieces).find? k = some b ∧
        r = row (interval coarse) (k, b) := by
  have hincreasing := (Bucket.gathered_of (interval coarse) pieces).increasing
  rw [rowAt_chart_iff]
  unfold rows
  rw [List.mem_map]
  constructor
  · rintro ⟨⟨⟨j, b⟩, hentry, rfl⟩, htime⟩
    have hb := (Table.mem_entries_iff hincreasing).mp hentry
    -- The key is that of some reading, which is near, so its time does not belong to another key.
    obtain rfl : k = j := by
      rw [Bucket.gather_eq_collect] at hb
      obtain ⟨n, hn⟩ := Bucket.exists_find?_iff.mp ⟨b, hb⟩
      obtain ⟨reading, hreading, rfl, -⟩ := Bucket.mem_keyed_iff.mp hn
      have htimes : (Scalar.ofInt k * interval coarse : Time) =
          Scalar.ofInt (Bucket.key (interval coarse) reading.1) * interval coarse := htime.symm
      have hnot := hnear reading hreading
      cases coarse with
      | false => exact eq_of_times (by decide) hnot htimes
      | true => exact eq_of_times (by decide) hnot htimes
    exact ⟨b, hb, rfl⟩
  · rintro ⟨b, hb, rfl⟩
    exact ⟨⟨(k, b), (Table.mem_entries_iff hincreasing).mpr hb, rfl⟩, rfl⟩

/-! ## Merging -/

/-- **A coarse chart is merged from a fine one**: each of its rows from those in its interval. -/
structure Merged (coarse fine : Option (List (HelicorderRow Time))) : Prop where
  found_iff : ∀ k, (∃ r, RowAt true coarse k r) ↔
    ∃ j r, 6 * k ≤ j ∧ j ≤ 6 * k + 5 ∧ RowAt false fine j r
  least_mem : ∀ k r, RowAt true coarse k r →
    ∃ j r', 6 * k ≤ j ∧ j ≤ 6 * k + 5 ∧ RowAt false fine j r' ∧ r'.least = r.least
  least_le : ∀ k r, RowAt true coarse k r → ∀ j r', 6 * k ≤ j → j ≤ 6 * k + 5 →
    RowAt false fine j r' → r.least.le r'.least = true
  greatest_mem : ∀ k r, RowAt true coarse k r →
    ∃ j r', 6 * k ≤ j ∧ j ≤ 6 * k + 5 ∧ RowAt false fine j r' ∧ r'.greatest = r.greatest
  le_greatest : ∀ k r, RowAt true coarse k r → ∀ j r', 6 * k ≤ j → j ≤ 6 * k + 5 →
    RowAt false fine j r' → r'.greatest.le r.greatest = true

section Merging

variable {j n : Int} {b b' : Bucket Time}
  (hnear : ∀ reading ∈ pieces.flatMap Segment.readings, Near reading.1)
  (hsplit : ∀ reading ∈ pieces.flatMap Segment.readings, ¬ Split reading.1)
include hnear hsplit

/-- A sample is in a coarse interval if it is in one of the six fine ones. -/
theorem mem_keyed_coarse_iff : (k, n) ∈ Bucket.keyed (interval true) pieces ↔
    ∃ j, 6 * k ≤ j ∧ j ≤ 6 * k + 5 ∧ (j, n) ∈ Bucket.keyed (interval false) pieces := by
  simp only [Bucket.mem_keyed_iff]
  constructor
  · rintro ⟨reading, hreading, rfl, hn⟩
    have hkey := key_coarse (hnear reading hreading) (hsplit reading hreading)
    exact ⟨_, by omega, by omega, reading, hreading, rfl, hn⟩
  · rintro ⟨_, hlow, hhigh, reading, hreading, rfl, hn⟩
    have hkey := key_coarse (hnear reading hreading) (hsplit reading hreading)
    exact ⟨reading, hreading, by omega, hn⟩

/-- A coarse bucket lacks no sample of a fine one in its interval. -/
theorem exists_coarse (hlow : 6 * k ≤ j) (hhigh : j ≤ 6 * k + 5)
    (hb' : (Bucket.gather (interval false) pieces).find? j = some b') :
    ∃ b, (Bucket.gather (interval true) pieces).find? k = some b ∧
      b.least ≤ b'.least ∧ b'.greatest ≤ b.greatest := by
  rw [Bucket.gather_eq_collect] at hb' ⊢
  have hholds' := Bucket.holds_of_find? hb'
  have hin {n : Int} (hn : n ∈ Bucket.samplesAt (Bucket.keyed (interval false) pieces) j) :
      n ∈ Bucket.samplesAt (Bucket.keyed (interval true) pieces) k :=
    Bucket.mem_samplesAt_iff.mpr ((mem_keyed_coarse_iff hnear hsplit).mpr
      ⟨j, hlow, hhigh, Bucket.mem_samplesAt_iff.mp hn⟩)
  obtain ⟨b, hb⟩ := (Bucket.exists_find?_iff (β := Time)).mpr
    ⟨_, Bucket.mem_samplesAt_iff.mp (hin hholds'.least_mem)⟩
  have hholds := Bucket.holds_of_find? hb
  exact ⟨b, hb, hholds.least_le _ (hin hholds'.least_mem),
    hholds.le_greatest _ (hin hholds'.greatest_mem)⟩

/-- A coarse bucket has no tighter bounds than a fine one in its interval. -/
theorem bounds_of_fine (hb : (Bucket.gather (interval true) pieces).find? k = some b)
    (hlow : 6 * k ≤ j) (hhigh : j ≤ 6 * k + 5)
    (hb' : (Bucket.gather (interval false) pieces).find? j = some b') :
    b.least ≤ b'.least ∧ b'.greatest ≤ b.greatest := by
  obtain ⟨d, hd, hbounds⟩ := exists_coarse hnear hsplit hlow hhigh hb'
  obtain rfl := Option.some.inj (hb.symm.trans hd)
  exact hbounds

/-- Each sample of a coarse bucket is in one of the fine ones. -/
theorem exists_fine (hn : n ∈ Bucket.samplesAt (Bucket.keyed (interval true) pieces) k) :
    ∃ j b', 6 * k ≤ j ∧ j ≤ 6 * k + 5 ∧
      (Bucket.gather (interval false) pieces).find? j = some b' ∧
      b'.least ≤ n ∧ n ≤ b'.greatest := by
  obtain ⟨j, hlow, hhigh, hj⟩ :=
    (mem_keyed_coarse_iff hnear hsplit).mp (Bucket.mem_samplesAt_iff.mp hn)
  obtain ⟨b', hb'⟩ := (Bucket.exists_find?_iff (β := Time)).mpr ⟨n, hj⟩
  have hholds := Bucket.holds_of_find? hb'
  have hin := Bucket.mem_samplesAt_iff.mpr hj
  rw [← Bucket.gather_eq_collect] at hb'
  exact ⟨j, b', hlow, hhigh, hb', hholds.least_le n hin, hholds.le_greatest n hin⟩

/-- So it has the bounds of the fine ones. -/
theorem exists_fine_bounds (hb : (Bucket.gather (interval true) pieces).find? k = some b) :
    (∃ j b', 6 * k ≤ j ∧ j ≤ 6 * k + 5 ∧
      (Bucket.gather (interval false) pieces).find? j = some b' ∧ b'.least = b.least) ∧
    ∃ j b', 6 * k ≤ j ∧ j ≤ 6 * k + 5 ∧
      (Bucket.gather (interval false) pieces).find? j = some b' ∧ b'.greatest = b.greatest := by
  have hcollect := hb
  rw [Bucket.gather_eq_collect] at hcollect
  have hholds := Bucket.holds_of_find? hcollect
  -- The least sample of a coarse bucket is in a fine one, whose least is not less; and so for the
  -- greatest.
  constructor
  · obtain ⟨j, b', hlow, hhigh, hb', hle, -⟩ := exists_fine hnear hsplit hholds.least_mem
    exact ⟨j, b', hlow, hhigh, hb',
      Int.le_antisymm hle (bounds_of_fine hnear hsplit hb hlow hhigh hb').1⟩
  · obtain ⟨j, b', hlow, hhigh, hb', -, hle⟩ := exists_fine hnear hsplit hholds.greatest_mem
    exact ⟨j, b', hlow, hhigh, hb',
      Int.le_antisymm (bounds_of_fine hnear hsplit hb hlow hhigh hb').2 hle⟩

/-- The bounds of the rows are those of the buckets. -/
theorem merged_chart : Merged (chart true pieces) (chart false pieces) where
  found_iff := by
    intro k
    simp only [rowAt_iff hnear]
    constructor
    · rintro ⟨-, b, hb, -⟩
      obtain ⟨⟨j, b', hlow, hhigh, hb', -⟩, -⟩ := exists_fine_bounds hnear hsplit hb
      exact ⟨j, _, hlow, hhigh, b', hb', rfl⟩
    · rintro ⟨j, -, hlow, hhigh, b', hb', -⟩
      obtain ⟨b, hb, -⟩ := exists_coarse hnear hsplit hlow hhigh hb'
      exact ⟨_, b, hb, rfl⟩
  least_mem := by
    intro k r hr
    obtain ⟨b, hb, rfl⟩ := (rowAt_iff hnear).mp hr
    obtain ⟨⟨j, b', hlow, hhigh, hb', heq⟩, -⟩ := exists_fine_bounds hnear hsplit hb
    exact ⟨j, _, hlow, hhigh, (rowAt_iff hnear).mpr ⟨b', hb', rfl⟩, congrArg Scalar.ofInt heq⟩
  least_le := by
    intro k r hr j r' hlow hhigh hr'
    obtain ⟨b, hb, rfl⟩ := (rowAt_iff hnear).mp hr
    obtain ⟨b', hb', rfl⟩ := (rowAt_iff hnear).mp hr'
    exact Binary64.ofInt_le_ofInt (bounds_of_fine hnear hsplit hb hlow hhigh hb').1
  greatest_mem := by
    intro k r hr
    obtain ⟨b, hb, rfl⟩ := (rowAt_iff hnear).mp hr
    obtain ⟨-, j, b', hlow, hhigh, hb', heq⟩ := exists_fine_bounds hnear hsplit hb
    exact ⟨j, _, hlow, hhigh, (rowAt_iff hnear).mpr ⟨b', hb', rfl⟩, congrArg Scalar.ofInt heq⟩
  le_greatest := by
    intro k r hr j r' hlow hhigh hr'
    obtain ⟨b, hb, rfl⟩ := (rowAt_iff hnear).mp hr
    obtain ⟨b', hb', rfl⟩ := (rowAt_iff hnear).mp hr'
    exact Binary64.ofInt_le_ofInt (bounds_of_fine hnear hsplit hb hlow hhigh hb').2

end Merging

end Helicorder

namespace Archive

/-- **The coarse chart of a channel is merged from the fine one** in every window in which the
samples are taken at times that are near enough and that the two intervals do not split. -/
theorem helicorder_merged (a : Archive) (sid : Int) (window : Span Time)
    (hnear : ∀ reading ∈ ((a.recording sid).clipped window).flatMap Segment.readings,
      Helicorder.Near reading.1)
    (hsplit : ∀ reading ∈ ((a.recording sid).clipped window).flatMap Segment.readings,
      ¬ Helicorder.Split reading.1) :
    Helicorder.Merged (a.helicorder sid window true) (a.helicorder sid window false) :=
  Helicorder.merged_chart hnear hsplit

/-- An archive with one channel that has a segment of one sample for each start. -/
def sampledAt (starts : List Time) : Archive where
  channels := [{ channel := { address := ⟨"AKV", "EHZ", "AV", none⟩ }
                 recording := starts.map fun start => ⟨start, 1, [5]⟩ }]

theorem helicorder_merged_signed :
    Helicorder.Merged ((sampledAt [-55, -5, 5]).helicorder 1 ⟨-60, 60⟩ true)
      ((sampledAt [-55, -5, 5]).helicorder 1 ⟨-60, 60⟩ false) := by
  refine helicorder_merged _ _ _ ?_ ?_
  · decide +kernel
  · decide +kernel

/-- The time of minus ten units, the negative number nearest to zero but for nine. -/
def tenUnits : Time := ⟨true, 10, by decide⟩

/-- The one sample is taken so shortly before the epoch that it is in the fine row before it and in
the coarse row behind it. -/
theorem helicorder_not_merged :
    (∀ p ∈ ((sampledAt [tenUnits]).recording 1).clipped ⟨-1, 1⟩, ∀ i < p.length,
      Helicorder.Near (p.sampleTime i)) ∧
    ¬ Helicorder.Merged ((sampledAt [tenUnits]).helicorder 1 ⟨-1, 1⟩ true)
      ((sampledAt [tenUnits]).helicorder 1 ⟨-1, 1⟩ false) := by
  have hcoarse : (sampledAt [tenUnits]).helicorder 1 ⟨-1, 1⟩ true = some [⟨0, 5, 5⟩] := by
    decide +kernel
  have hfine : (sampledAt [tenUnits]).helicorder 1 ⟨-1, 1⟩ false = some [⟨-10, 5, 5⟩] := by
    decide +kernel
  refine ⟨by decide +kernel, fun hmerged => ?_⟩
  rw [hcoarse, hfine] at hmerged
  have hrow : Helicorder.RowAt true (some [⟨0, 5, 5⟩]) 0 ⟨0, 5, 5⟩ :=
    ⟨_, rfl, List.mem_cons_self, by decide +kernel⟩
  obtain ⟨j, r, hlow, hhigh, rows, hrows, hr, htime⟩ := (hmerged.found_iff 0).mp ⟨_, hrow⟩
  obtain rfl := Option.some.inj hrows
  rw [List.mem_singleton.mp hr] at htime
  have hdiffer : ∀ j ∈ [(0 : Int), 1, 2, 3, 4, 5],
      (-10 : Time) ≠ Scalar.ofInt j * Helicorder.interval false := by decide +kernel
  exact hdiffer j (by simp only [List.mem_cons, List.not_mem_nil]; omega) htime

end Archive

end Seismic
