import Mathlib.Data.List.Forall2
import Seismic.Proofs.Buckets

/-!
# Gathering — the buckets of pieces, and the rows made of them

A product is computed from pieces in any order, which may overlap and may lack samples. Each sample
that is there goes into one bucket and no other, whichever piece it comes from.

* **`Bucket.within`**: the samples that pieces have in one interval, told from the pieces alone;
* **`Bucket.Gathered`**: the buckets hold these samples, all of them and each once;
* **`Helicorder.RowOf`**, **`Rsam.RowOf`**: what the rows of the products show of them;
* **`Bucket.gathered`**: this is so for all pieces and all intervals.
-/

namespace Seismic

namespace Bucket

variable {α β : Type} [Scalar α] [Scalar β]

/-- The samples that pieces have in the interval with a key. -/
def within (interval : α) (pieces : List (Segment α)) (k : Int) : List Int :=
  pieces.flatMap fun p =>
    (p.samples.zipIdx.filter fun (sample, i) =>
      sample ≠ noData ∧ key interval (p.sampleTime i) = k).map fun e => e.1.toInt

/-- The buckets of pieces with sums in exact arithmetic. Their keys are those of rounded times. -/
def exactly (interval : Time) (pieces : List (Segment Time)) : Table Int (Bucket Rat) :=
  collect Rat (keyed interval pieces)

/-- The samples with a key, in the order of the walk, are those of each piece in turn. -/
theorem samplesAt_keyed (interval : α) (pieces : List (Segment α)) (k : Int) :
    samplesAt (keyed interval pieces) k = within interval pieces k := by
  -- By induction on the samples of one piece, of which the missing ones have no key.
  have hpiece (p : Segment α) (entries : List (Int32 × Nat)) :
      samplesAt ((entries.filterMap fun (sample, i) =>
        if sample = noData then none else some (p.sampleTime i, sample)).map
          fun reading => (key interval reading.1, reading.2.toInt)) k =
      (entries.filter fun (sample, i) =>
        sample ≠ noData ∧ key interval (p.sampleTime i) = k).map fun e => e.1.toInt := by
    induction entries with
    | nil => rfl
    | cons e rest ih =>
      unfold samplesAt at ih ⊢
      by_cases hreading : e.1 = noData
      · simp [hreading, ih]
      · by_cases hkey : key interval (p.sampleTime e.2) = k
        · simp [hreading, hkey, ih]
        · simp [hreading, hkey, ih]
  unfold keyed within samplesAt
  rw [List.map_flatMap, List.filter_flatMap, List.map_flatMap]
  congr 1
  funext p
  exact hpiece p p.samples.zipIdx

/-! ## Buckets -/

/-- **Nothing is lost and nothing is counted twice** where the samples of pieces are gathered. -/
structure Gathered (interval : Time) (pieces : List (Segment Time)) : Prop where
  increasing : (gather interval pieces).Sorted
  found_iff : ∀ k, (∃ b, (gather interval pieces).find? k = some b) ↔
    ∃ p ∈ pieces, ∃ i sample, p.samples[i]? = some sample ∧ sample ≠ noData ∧
      key interval (p.sampleTime i) = k
  holds : ∀ k b, (gather interval pieces).find? k = some b → b.Holds (within interval pieces k)
  counts : ((gather interval pieces).values.map (·.count)).sum =
    (pieces.map fun p => p.samples.countP (· ≠ noData)).sum
  /-- The same buckets, but for the rounding of the sums -/
  exactly_unsummed : (exactly interval pieces).map unsummed = (gather interval pieces).map unsummed
  exact_sum : ∀ k b, (exactly interval pieces).find? k = some b →
    b.absoluteSum = total (within interval pieces k)
  small_sum : ∀ k b, (gather interval pieces).find? k = some b →
    total (within interval pieces k) < 2 ^ 53 →
    b.absoluteSum = Binary64.ofNat (total (within interval pieces k))
  exact_mean : ∀ k b, (exactly interval pieces).find? k = some b →
    0 < b.count ∧ 0 ≤ b.mean ∧ b.mean ≤ b.amplitude
  exactly_perm : ∀ pieces', pieces.Perm pieces' → exactly interval pieces = exactly interval pieces'
  gather_perm : ∀ pieces', pieces.Perm pieces' →
    (∀ k, total (within interval pieces k) < 2 ^ 53) →
    gather interval pieces = gather interval pieces'

/-- Gathering is collecting by keys, of which all this is known. -/
theorem gathered_of (interval : Time) (pieces : List (Segment Time)) : Gathered interval pieces where
  increasing := by
    rw [gather_eq_collect]
    exact sorted_collect _
  found_iff := by
    intro k
    rw [gather_eq_collect, exists_find?_iff]
    exact exists_keyed_iff
  holds := by
    intro k b hb
    rw [gather_eq_collect] at hb
    rw [← samplesAt_keyed]
    exact holds_of_find? hb
  counts := by
    -- Each reading is counted once, and the readings of a piece are its samples that are there.
    rw [gather_eq_collect, sum_count_collect, length_keyed]
  exactly_unsummed := by
    rw [gather_eq_collect]
    exact map_unsummed_collect (.refl _)
  exact_sum := by
    intro k b hb
    rw [← samplesAt_keyed]
    exact (holds_of_find? hb).eq_total (exactUpTo_rat _)
  small_sum := by
    intro k b hb hsmall
    rw [gather_eq_collect] at hb
    rw [← samplesAt_keyed] at hsmall ⊢
    rw [(holds_of_find? hb).eq_total (exactUpTo_binary64 hsmall), Binary64.scalar_ofNat]
  exact_mean := by
    intro k b hb
    have hholds := holds_of_find? hb
    exact ⟨hholds.count_pos, hholds.mean_rat⟩
  exactly_perm := by
    intro pieces' hperm
    exact collect_perm (keyed_perm hperm) fun k => exactUpTo_rat _
  gather_perm := by
    intro pieces' hperm hsmall
    rw [gather_eq_collect, gather_eq_collect]
    refine collect_perm (keyed_perm hperm) fun k => exactUpTo_binary64 ?_
    rw [samplesAt_keyed]
    exact hsmall k

end Bucket

/-! ## Rows -/

/-- A row of a strip chart shows the least and the greatest sample in its interval. -/
structure Helicorder.RowOf (coarse : Bool) (pieces : List (Segment Time)) (k : Int)
    (row : HelicorderRow Time) : Prop where
  time : row.time = Scalar.ofInt k * interval coarse
  least : ∃ n ∈ Bucket.within (interval coarse) pieces k, row.least = Scalar.ofInt n ∧
    ∀ m ∈ Bucket.within (interval coarse) pieces k, n ≤ m
  greatest : ∃ n ∈ Bucket.within (interval coarse) pieces k, row.greatest = Scalar.ofInt n ∧
    ∀ m ∈ Bucket.within (interval coarse) pieces k, m ≤ n
  ordered : row.least.le row.greatest = true

/-- A row of an amplitude series is the mean of a bucket, which its greatest absolute value bounds
as long as the sum is not rounded. -/
structure Rsam.RowOf (period : Option Nat) (pieces : List (Segment Time)) (k : Int)
    (row : RsamRow Time) : Prop where
  time : row.time = Scalar.ofInt k * interval period
  value : ∃ b, (Bucket.gather (interval period) pieces).find? k = some b ∧ 0 < b.count ∧
    row.value = b.absoluteSum / Binary64.ofNat b.count ∧
    (Bucket.total (Bucket.within (interval period) pieces k) < 2 ^ 53 →
      (Binary64.zero false).le row.value = true ∧
        row.value.le (Binary64.ofNat b.amplitude) = true)

theorem Helicorder.rowOf {coarse : Bool} {pieces : List (Segment Time)} {k : Int}
    {b : Bucket Time} (h : (Bucket.gather (interval coarse) pieces).find? k = some b) :
    RowOf coarse pieces k (row (interval coarse) (k, b)) := by
  have hholds := (Bucket.gathered_of _ _).holds k b h
  exact {
    time := rfl
    least := ⟨b.least, hholds.least_mem, rfl, hholds.least_le⟩
    greatest := ⟨b.greatest, hholds.greatest_mem, rfl, hholds.le_greatest⟩
    ordered := Binary64.ofInt_le_ofInt (hholds.least_le _ hholds.greatest_mem) }

theorem Rsam.rowOf {period : Option Nat} {pieces : List (Segment Time)} {k : Int}
    {b : Bucket Time} (h : (Bucket.gather (interval period) pieces).find? k = some b) :
    RowOf period pieces k (row (interval period) (k, b)) := by
  have hholds := (Bucket.gathered_of _ _).holds k b h
  exact {
    time := rfl
    value := ⟨b, h, hholds.count_pos, by rw [← Binary64.scalar_ofNat]; rfl, hholds.mean_binary64⟩ }

/-- The rows of a table are made of its buckets, in the order of their keys. -/
theorem Table.rows_of_entries {ν ρ : Type} {t : Table Int ν} (h : t.Sorted) {row : Int × ν → ρ}
    {R : Int → ρ → Prop} (hrow : ∀ k v, t.find? k = some v → R k (row (k, v))) :
    ∃ keys : List Int, keys.Pairwise (· < ·) ∧ List.Forall₂ R keys (t.entries.map row) := by
  have hkeys : (t.entries.map Prod.fst).Pairwise (· < ·) := by
    rw [List.pairwise_map]
    exact h
  refine ⟨t.entries.map Prod.fst, hkeys, ?_⟩
  -- Keys and rows come from the same entries, so they are matched entry by entry.
  rw [List.forall₂_map_left_iff, List.forall₂_map_right_iff, List.forall₂_same]
  exact fun e he => hrow e.1 e.2 ((mem_entries_iff h).mp he)

/-- **Buckets lose nothing and count nothing twice**, and rows are made of them in the order of
their keys. -/
theorem Bucket.gathered (pieces : List (Segment Time)) :
    (∀ interval, Gathered interval pieces) ∧
      (∀ coarse, ∃ keys : List Int, keys.Pairwise (· < ·) ∧
        List.Forall₂ (Helicorder.RowOf coarse pieces) keys (Helicorder.rows coarse pieces)) ∧
      ∀ period, ∃ keys : List Int, keys.Pairwise (· < ·) ∧
        List.Forall₂ (Rsam.RowOf period pieces) keys (Rsam.rows period pieces) := by
  refine ⟨fun interval => gathered_of interval pieces, fun coarse => ?_, fun period => ?_⟩
  · exact Table.rows_of_entries (gathered_of _ pieces).increasing fun k b => Helicorder.rowOf
  · exact Table.rows_of_entries (gathered_of _ pieces).increasing fun k b => Rsam.rowOf

end Seismic
