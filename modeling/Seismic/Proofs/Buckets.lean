import Mathlib.Algebra.Order.Field.Rat
import Mathlib.Tactic.Positivity
import Seismic.Product
import Seismic.Proofs.Representable
import Seismic.Proofs.Slicing
import Seismic.Proofs.Tables

/-!
# Buckets — what is gathered from pieces

Gathering walks over the samples of all pieces and changes the bucket of each as it comes. What is
in a bucket in the end can be told from the samples with its key alone, in the order of the walk;
and but for the sum, which is rounded, from these samples in any order.

* **`Bucket.find?_collect`**: a bucket is made of the samples with its key;
* **`Bucket.Holds`** says what it then knows of them;
* **`Bucket.map_collect_eq`**: so two collections are compared bucket by bucket;
* **`Bucket.ExactUpTo`**: sums that are not rounded, which sums below `2 ^ 53` are not;
* **`Bucket.Holds.mean_rat`**, **`mean_binary64`**: the bounds of a mean.
-/

namespace Seismic

/-! ## Readings -/

namespace Segment

variable {α : Type} [Scalar α] {s : Segment α}

/-- The readings of a segment are its samples that are not missing. -/
theorem length_readings (s : Segment α) :
    s.readings.length = s.samples.countP (· ≠ noData) := by
  have hsome (x : Int32 × Nat) :
      (if x.1 = noData then none else some (s.sampleTime x.2, x.1)).isSome =
        decide (x.1 ≠ noData) := by
    by_cases hx : x.1 = noData <;> simp [hx]
  unfold readings
  rw [List.length_filterMap_eq_countP]
  simp only [hsome]
  have hsamples := congrArg (List.countP (· ≠ noData)) (List.zipIdx_map_fst 0 s.samples)
  rw [List.countP_map] at hsamples
  exact hsamples

end Segment

namespace Bucket

variable {α β γ : Type} [Scalar α] [Scalar β] [Scalar γ] {samples : List Int} {b b' : Bucket β}
  {entries entries' : List (Int × Int)}

/-! ## Samples by key -/

/-- The samples of pieces, each with the key of its time. -/
def keyed (interval : α) (pieces : List (Segment α)) : List (Int × Int) :=
  (pieces.flatMap Segment.readings).map fun reading => (key interval reading.1, reading.2.toInt)

/-- The samples with a key. -/
def samplesAt (entries : List (Int × Int)) (k : Int) : List Int :=
  (entries.filter fun e => e.1 = k).map (·.2)

/-- A bucket with one more sample, or with the first. -/
def push (sample : Int) : Option (Bucket β) → Bucket β
  | none => single sample
  | some b => b.add sample

/-- Samples in buckets by their keys, the sums computed in `β`. -/
def collect (β : Type) [Scalar β] (entries : List (Int × Int)) : Table Int (Bucket β) :=
  entries.foldl (fun buckets e => buckets.alter e.1 (push e.2)) {}

/-- The bucket of some samples, if there are any. -/
def ofSamples? (β : Type) [Scalar β] (samples : List Int) : Option (Bucket β) :=
  samples.foldl (fun b n => some (push n b)) none

/-- Gathering is collecting samples by the keys of their times. -/
theorem gather_eq_collect (interval : α) (pieces : List (Segment α)) :
    gather interval pieces = collect α (keyed interval pieces) := by
  have hpush : gatherOne interval = fun buckets (reading : α × Int32) =>
      buckets.alter (key interval reading.1) (push reading.2.toInt) := by
    funext buckets reading
    show buckets.alter _ _ = buckets.alter _ _
    congr 1
  unfold gather collect keyed
  rw [List.foldl_map, hpush]

theorem mem_keyed_iff {interval : α} {pieces : List (Segment α)} {k n : Int} :
    (k, n) ∈ keyed interval pieces ↔ ∃ reading ∈ pieces.flatMap Segment.readings,
      key interval reading.1 = k ∧ reading.2.toInt = n := by
  unfold keyed
  simp only [List.mem_map, Prod.mk.injEq]

/-- A key occurs if some sample that is not missing has it. -/
theorem exists_keyed_iff {interval : α} {pieces : List (Segment α)} {k : Int} :
    (∃ n, (k, n) ∈ keyed interval pieces) ↔ ∃ p ∈ pieces, ∃ i sample,
      p.samples[i]? = some sample ∧ sample ≠ noData ∧ key interval (p.sampleTime i) = k := by
  simp only [mem_keyed_iff, List.mem_flatMap]
  constructor
  · rintro ⟨-, ⟨t, sample⟩, ⟨p, hp, hreading⟩, hkey, -⟩
    obtain ⟨i, hsample, hthere, rfl⟩ := Segment.mem_readings_iff.mp hreading
    exact ⟨p, hp, i, sample, hsample, hthere, hkey⟩
  · rintro ⟨p, hp, i, sample, hsample, hthere, hkey⟩
    exact ⟨_, (p.sampleTime i, sample),
      ⟨p, hp, Segment.mem_readings_iff.mpr ⟨i, hsample, hthere, rfl⟩⟩, hkey, rfl⟩

theorem keyed_perm {interval : α} {pieces pieces' : List (Segment α)}
    (h : pieces.Perm pieces') : (keyed interval pieces).Perm (keyed interval pieces') :=
  (h.flatMap_right _).map _

theorem length_keyed (interval : α) (pieces : List (Segment α)) :
    (keyed interval pieces).length =
      (pieces.map fun p => p.samples.countP (· ≠ noData)).sum := by
  unfold keyed
  rw [List.length_map, List.length_flatMap]
  simp only [Segment.length_readings]

theorem mem_samplesAt_iff {k n : Int} : n ∈ samplesAt entries k ↔ (k, n) ∈ entries := by
  unfold samplesAt
  simp only [List.mem_map, List.mem_filter, decide_eq_true_eq, Prod.exists]
  constructor
  · rintro ⟨k', n', ⟨hmem, rfl⟩, rfl⟩
    exact hmem
  · exact fun hmem => ⟨k, n, ⟨hmem, rfl⟩, rfl⟩

theorem samplesAt_perm (h : entries.Perm entries') (k : Int) :
    (samplesAt entries k).Perm (samplesAt entries' k) :=
  (h.filter _).map _

/-! ## Buckets by key -/

-- By induction on the entries: each changes the bucket of its own key only.
theorem find?_foldl_push (entries : List (Int × Int)) {t : Table Int (Bucket β)} (h : t.Sorted)
    (k : Int) :
    (entries.foldl (fun buckets e => buckets.alter e.1 (push e.2)) t).find? k =
      (samplesAt entries k).foldl (fun b n => some (push n b)) (t.find? k) := by
  induction entries generalizing t with
  | nil => rfl
  | cons e rest ih =>
    rw [List.foldl_cons, ih (Table.sorted_alter h), Table.find?_alter h]
    unfold samplesAt
    by_cases hk : e.1 = k
    · simp only [List.filter_cons, hk, decide_true, if_true, List.map_cons, List.foldl_cons]
    · simp only [List.filter_cons, hk, Ne.symm hk, decide_false, Bool.false_eq_true, if_false]

/-- **A bucket is made of the samples with its key.** -/
theorem find?_collect (entries : List (Int × Int)) (k : Int) :
    (collect β entries).find? k = ofSamples? β (samplesAt entries k) :=
  find?_foldl_push entries Table.sorted_empty k

theorem sorted_collect (entries : List (Int × Int)) : (collect β entries).Sorted := by
  -- Each entry alters a table in order, which keeps it in order.
  have hkept (t : Table Int (Bucket β)) (h : t.Sorted) :
      (entries.foldl (fun buckets e => buckets.alter e.1 (push e.2)) t).Sorted := by
    induction entries generalizing t with
    | nil => exact h
    | cons e rest ih => exact ih _ (Table.sorted_alter h)
  exact hkept {} Table.sorted_empty

/-- Each sample is counted in one bucket. -/
theorem sum_count_alterEntries (k n : Int) (buckets : List (Int × Bucket β)) :
    ((Table.alterEntries k (push n) buckets).map (·.2.count)).sum =
      (buckets.map (·.2.count)).sum + 1 := by
  induction buckets with
  | nil => rfl
  | cons first rest ih =>
    obtain ⟨first, b⟩ := first
    unfold Table.alterEntries
    split
    · simp only [List.map_cons, List.sum_cons, push, single]
      omega
    split
    · simp only [List.map_cons, List.sum_cons, ih]
      omega
    · simp only [List.map_cons, List.sum_cons, push, add]
      omega

/-- So all buckets together count all samples. -/
theorem sum_count_collect (entries : List (Int × Int)) :
    ((collect β entries).values.map (·.count)).sum = entries.length := by
  -- By induction on the entries, from a table that has counted some already.
  have hkept (t : Table Int (Bucket β)) :
      ((entries.foldl (fun buckets e => buckets.alter e.1 (push e.2)) t).entries.map
        (·.2.count)).sum = (t.entries.map (·.2.count)).sum + entries.length := by
    induction entries generalizing t with
    | nil => rfl
    | cons e rest ih =>
      rw [List.foldl_cons, ih, List.length_cons, Table.alter, sum_count_alterEntries]
      omega
  unfold Table.values collect
  rw [List.map_map]
  exact (hkept {}).trans (Nat.zero_add _)

/-! ## What a bucket knows -/

/-- The absolute values of samples added up one after the other, in `β`. -/
def runningSum (β : Type) [Scalar β] : List Int → β
  | [] => Scalar.ofNat 0
  | n :: rest => rest.foldl (fun sum m => sum + Scalar.ofNat m.natAbs) (Scalar.ofNat n.natAbs)

/-- The exact sum of the absolute values. -/
def total (samples : List Int) : Nat := (samples.map Int.natAbs).sum

/-- **What a bucket knows of the samples in it.** -/
structure Holds (samples : List Int) (b : Bucket β) : Prop where
  count : b.count = samples.length
  least_mem : b.least ∈ samples
  least_le : ∀ n ∈ samples, b.least ≤ n
  greatest_mem : b.greatest ∈ samples
  le_greatest : ∀ n ∈ samples, n ≤ b.greatest
  sum : b.absoluteSum = runningSum β samples

/-- One more sample is added at the end, where nothing that was added is rounded again. -/
theorem runningSum_concat (h : samples ≠ []) (n : Int) :
    runningSum β (samples ++ [n]) = runningSum β samples + Scalar.ofNat n.natAbs := by
  cases samples with
  | nil => exact absurd rfl h
  | cons first rest =>
    unfold runningSum
    rw [List.cons_append]
    exact List.foldl_concat _ _ _ _

theorem holds_single (n : Int) : Holds [n] (single n : Bucket β) where
  count := rfl
  least_mem := List.mem_singleton.mpr rfl
  least_le := fun _ hm => Int.le_of_eq (List.mem_singleton.mp hm).symm
  greatest_mem := List.mem_singleton.mpr rfl
  le_greatest := fun _ hm => Int.le_of_eq (List.mem_singleton.mp hm)
  sum := rfl

/-- **One sample.** -/
theorem Holds.add (h : Holds samples b) (n : Int) : Holds (samples ++ [n]) (b.add n) where
  count := by
    rw [List.length_append, ← h.count]
    rfl
  least_mem := by
    show min b.least n ∈ samples ++ [n]
    rcases Int.le_total b.least n with hle | hle
    · rw [Int.min_eq_left hle]
      exact List.mem_append_left _ h.least_mem
    · rw [Int.min_eq_right hle]
      exact List.mem_append_right _ List.mem_cons_self
  least_le := by
    intro m hm
    show min b.least n ≤ m
    rcases List.mem_append.mp hm with hm | hm
    · have hle := h.least_le m hm
      omega
    · rw [List.mem_singleton.mp hm]
      exact Int.min_le_right _ _
  greatest_mem := by
    show max b.greatest n ∈ samples ++ [n]
    rcases Int.le_total b.greatest n with hle | hle
    · rw [Int.max_eq_right hle]
      exact List.mem_append_right _ List.mem_cons_self
    · rw [Int.max_eq_left hle]
      exact List.mem_append_left _ h.greatest_mem
  le_greatest := by
    intro m hm
    show m ≤ max b.greatest n
    rcases List.mem_append.mp hm with hm | hm
    · have hle := h.le_greatest m hm
      omega
    · rw [List.mem_singleton.mp hm]
      exact Int.le_max_right _ _
  sum := by
    have hne : samples ≠ [] := List.ne_nil_of_mem h.least_mem
    rw [runningSum_concat hne, ← h.sum]
    rfl

/-- **All samples.** -/
theorem ofSamples?_cases (samples : List Int) :
    (samples = [] ∧ ofSamples? β samples = none) ∨
      ∃ b, ofSamples? β samples = some b ∧ b.Holds samples := by
  -- From the back, since each sample is added to the bucket of those before it.
  induction samples using List.reverseRecOn with
  | nil => exact .inl ⟨rfl, rfl⟩
  | append_singleton before n ih =>
    refine .inr ?_
    unfold ofSamples? at ih ⊢
    rw [List.foldl_concat]
    rcases ih with ⟨rfl, -⟩ | ⟨b, hb, hholds⟩
    · exact ⟨_, rfl, holds_single n⟩
    · rw [hb]
      exact ⟨_, rfl, hholds.add n⟩

theorem holds_of_find? {k : Int} (h : (collect β entries).find? k = some b) :
    b.Holds (samplesAt entries k) := by
  rw [find?_collect] at h
  rcases ofSamples?_cases (β := β) (samplesAt entries k) with ⟨-, hnone⟩ | ⟨b', hb', hholds⟩
  · rw [hnone] at h
    cases h
  · obtain rfl : b' = b := Option.some.inj (hb'.symm.trans h)
    exact hholds

/-- A bucket is there exactly if some sample has its key. -/
theorem exists_find?_iff {k : Int} :
    (∃ b, (collect β entries).find? k = some b) ↔ ∃ n, (k, n) ∈ entries := by
  constructor
  · rintro ⟨b, hb⟩
    exact ⟨b.least, mem_samplesAt_iff.mp (holds_of_find? hb).least_mem⟩
  · rintro ⟨n, hmem⟩
    rw [find?_collect]
    rcases ofSamples?_cases (β := β) (samplesAt entries k) with ⟨hnil, -⟩ | ⟨b, hb, -⟩
    · have hn := mem_samplesAt_iff.mpr hmem
      rw [hnil] at hn
      cases hn
    · exact ⟨b, hb⟩

/-! ## Other entries

What is in a bucket depends on the samples with its key. So two collections are compared bucket by
bucket, whichever numbers their sums are computed in. -/

section Compared

variable {μ : Type} {f : Bucket β → μ} {g : Bucket γ → μ}

theorem find?_collect_eq (hmem : ∀ e, e ∈ entries ↔ e ∈ entries') {k : Int}
    (hsame : ∀ (b : Bucket β) (b' : Bucket γ), b.Holds (samplesAt entries k) →
      b'.Holds (samplesAt entries' k) → f b = g b') :
    ((collect β entries).find? k).map f = ((collect γ entries').find? k).map g := by
  have hfound : (∃ b, (collect β entries).find? k = some b) ↔
      ∃ b', (collect γ entries').find? k = some b' := by
    rw [exists_find?_iff, exists_find?_iff]
    simp only [hmem]
  cases hb : (collect β entries).find? k with
  | none =>
    have hnone : (collect γ entries').find? k = none := by
      rw [Option.eq_none_iff_forall_ne_some]
      intro b' hb'
      obtain ⟨b, hsome⟩ := hfound.mpr ⟨b', hb'⟩
      rw [hb] at hsome
      cases hsome
    rw [hnone, Option.map_none, Option.map_none]
  | some b =>
    obtain ⟨b', hb'⟩ := hfound.mp ⟨b, hb⟩
    rw [hb', Option.map_some, Option.map_some,
      hsame b b' (holds_of_find? hb) (holds_of_find? hb')]

/-- **Collections agree in what their buckets agree in**, if they have the same keys. -/
theorem map_collect_eq (hmem : ∀ e, e ∈ entries ↔ e ∈ entries')
    (hsame : ∀ (k : Int) (b : Bucket β) (b' : Bucket γ), b.Holds (samplesAt entries k) →
      b'.Holds (samplesAt entries' k) → f b = g b') :
    (collect β entries).map f = (collect γ entries').map g := by
  -- Tables in order are equal if the same is found in them.
  refine Table.eq_of_find?_eq (Table.sorted_map (sorted_collect _) _)
    (Table.sorted_map (sorted_collect _) _) fun k => ?_
  rw [Table.find?_map, Table.find?_map]
  exact find?_collect_eq hmem (hsame k)

/-- Least and greatest depend on which samples there are, and not on how often. -/
theorem Holds.bounds_eq {samples' : List Int} {b : Bucket β} {b' : Bucket γ}
    (h : b.Holds samples) (h' : b'.Holds samples') (hmem : ∀ n, n ∈ samples ↔ n ∈ samples') :
    b.least = b'.least ∧ b.greatest = b'.greatest :=
  ⟨Int.le_antisymm (h.least_le _ ((hmem _).mpr h'.least_mem))
      (h'.least_le _ ((hmem _).mp h.least_mem)),
    Int.le_antisymm (h'.le_greatest _ ((hmem _).mp h.greatest_mem))
      (h.le_greatest _ ((hmem _).mpr h'.greatest_mem))⟩

end Compared

/-! ## Any order

All but the sum depends on which samples there are and how often, and not on their order. -/

/-- What a bucket knows but for the sum. -/
def unsummed (b : Bucket β) : Bucket Unit := ⟨b.least, b.greatest, (), b.count⟩

theorem Holds.unsummed_eq {samples' : List Int} {b : Bucket β} {b' : Bucket γ}
    (h : b.Holds samples) (h' : b'.Holds samples') (hperm : samples.Perm samples') :
    b.unsummed = b'.unsummed := by
  obtain ⟨hleast, hgreatest⟩ := h.bounds_eq h' fun _ => hperm.mem_iff
  unfold unsummed
  rw [hleast, hgreatest, h.count, h'.count, hperm.length_eq]

/-- **But for the sums, the buckets are those of the same samples in any order**, and whatever the
sums are computed in. -/
theorem map_unsummed_collect (hperm : entries.Perm entries') :
    (collect β entries).map unsummed = (collect γ entries').map unsummed :=
  map_collect_eq (fun _ => hperm.mem_iff) fun k _ _ h h' =>
    h.unsummed_eq h' (samplesAt_perm hperm k)

/-! ## Sums that are not rounded -/

/-- Natural numbers are added without rounding up to `limit`. -/
def ExactUpTo (β : Type) [Scalar β] (limit : Nat) : Prop :=
  ∀ m n, m + n ≤ limit → (Scalar.ofNat m + Scalar.ofNat n : β) = Scalar.ofNat (m + n)

theorem exactUpTo_rat (limit : Nat) : ExactUpTo Rat limit := by
  intro m n _
  show ((m : Int) : Rat) + ((n : Int) : Rat) = (((m + n : Nat) : Int) : Rat)
  push_cast
  rfl

theorem exactUpTo_binary64 {limit : Nat} (h : limit < 2 ^ 53) : ExactUpTo Binary64 limit := by
  intro m n hle
  rw [Binary64.scalar_ofNat, Binary64.scalar_ofNat, Binary64.scalar_ofNat]
  exact Binary64.ofNat_add (Nat.lt_of_le_of_lt hle h)

theorem total_perm {samples' : List Int} (h : samples.Perm samples') :
    total samples = total samples' :=
  (h.map _).sum_eq

/-- A running sum is the total, as long as nothing on the way is rounded. -/
theorem runningSum_eq_total (h : ExactUpTo β (total samples)) :
    runningSum β samples = Scalar.ofNat (total samples) := by
  -- What has been added up never exceeds the total, so each single addition is exact.
  have hrest (rest : List Int) (sum : Nat) (hle : sum + total rest ≤ total samples) :
      rest.foldl (fun sum m => sum + Scalar.ofNat m.natAbs) (Scalar.ofNat sum : β) =
        Scalar.ofNat (sum + total rest) := by
    induction rest generalizing sum with
    | nil => rfl
    | cons m rest ih =>
      have htotal : total (m :: rest) = m.natAbs + total rest := rfl
      rw [htotal, ← Nat.add_assoc] at hle ⊢
      rw [List.foldl_cons, h sum m.natAbs (by omega), ih (sum + m.natAbs) hle]
  cases samples with
  | nil => rfl
  | cons n rest => exact hrest rest n.natAbs (Nat.le_refl _)

theorem Holds.eq_total (h : b.Holds samples) (hexact : ExactUpTo β (total samples)) :
    b.absoluteSum = Scalar.ofNat (total samples) :=
  h.sum.trans (runningSum_eq_total hexact)

/-- **Buckets do not depend on the order of the samples if their sums are not rounded.** -/
theorem collect_perm (hperm : entries.Perm entries')
    (hexact : ∀ k, ExactUpTo β (total (samplesAt entries k))) :
    collect β entries = collect β entries' := by
  refine Table.eq_of_find?_eq (sorted_collect _) (sorted_collect _) fun k => ?_
  have hsame (b b' : Bucket β) (h : b.Holds (samplesAt entries k))
      (h' : b'.Holds (samplesAt entries' k)) : id b = id b' := by
    have hsamples := samplesAt_perm hperm k
    have htotal := total_perm hsamples
    have hsum : b.absoluteSum = b'.absoluteSum := by
      rw [h.eq_total (hexact k), h'.eq_total (htotal ▸ hexact k), htotal]
    have hunsummed := h.unsummed_eq h' hsamples
    -- Of the four fields the sum is settled by the total, and the others whatever the order.
    rcases b with ⟨least, greatest, sum, count⟩
    rcases b' with ⟨least', greatest', sum', count'⟩
    simp only [unsummed, Bucket.mk.injEq, true_and] at hunsummed hsum
    rw [hunsummed.1, hunsummed.2.1, hsum, hunsummed.2.2]
  have hfind := find?_collect_eq (fun _ => hperm.mem_iff) hsame
  rwa [Option.map_id] at hfind

/-! ## Means -/

/-- The greatest absolute value in a bucket, which its least or its greatest sample has. -/
def amplitude (b : Bucket β) : Nat := max b.least.natAbs b.greatest.natAbs

/-- No sample is greater in absolute value than both the least and the greatest. -/
theorem Holds.natAbs_le (h : b.Holds samples) {n : Int} (hn : n ∈ samples) :
    n.natAbs ≤ b.amplitude := by
  have hleast := h.least_le n hn
  have hgreatest := h.le_greatest n hn
  unfold amplitude
  omega

theorem Holds.count_pos (h : b.Holds samples) : 0 < b.count := by
  rw [h.count]
  exact List.length_pos_of_mem h.least_mem

/-- The total is at most what as many samples of the greatest absolute value would make. -/
theorem Holds.total_le (h : b.Holds samples) : total samples ≤ b.amplitude * b.count := by
  have hsum (l : List Int) (hl : ∀ n ∈ l, n.natAbs ≤ b.amplitude) :
      total l ≤ b.amplitude * l.length := by
    induction l with
    | nil => exact Nat.le_refl _
    | cons n rest ih =>
      have hrest := ih fun m hm => hl m (List.mem_cons_of_mem n hm)
      have hn := hl n List.mem_cons_self
      have htotal : total (n :: rest) = n.natAbs + total rest := rfl
      rw [htotal, List.length_cons, Nat.mul_succ]
      omega
  rw [h.count]
  exact hsum samples fun n hn => h.natAbs_le hn

/-- **An exact mean lies between zero and the greatest absolute value.** -/
theorem Holds.mean_rat {b : Bucket Rat} (h : b.Holds samples) :
    0 ≤ b.mean ∧ b.mean ≤ b.amplitude := by
  have hcount : (0 : Rat) < b.count := Nat.cast_pos.mpr h.count_pos
  have hmean : b.mean = (total samples : Rat) / b.count := by
    unfold mean
    rw [h.eq_total (exactUpTo_rat _)]
    rfl
  rw [hmean, div_le_iff₀ hcount]
  exact ⟨by positivity, by exact_mod_cast h.total_le⟩

/-- A mean is rounded once, if the sum is not rounded. -/
theorem Holds.mean_eq {b : Bucket Binary64} (h : b.Holds samples) (hsmall : total samples < 2 ^ 53) :
    b.mean = Binary64.ofNat (total samples) / Binary64.ofNat b.count := by
  unfold mean
  rw [h.eq_total (exactUpTo_binary64 hsmall), Binary64.scalar_ofNat, Binary64.scalar_ofNat]

/-- So it lies between the same bounds. -/
theorem Holds.mean_binary64 {b : Bucket Binary64} (h : b.Holds samples)
    (hsmall : total samples < 2 ^ 53) :
    (Binary64.zero false).le b.mean = true ∧ b.mean.le (Binary64.ofNat b.amplitude) = true := by
  rw [h.mean_eq hsmall]
  exact ⟨Binary64.zero_le_div_ofNat h.count_pos hsmall,
    Binary64.div_ofNat_le h.count_pos hsmall h.total_le⟩

end Bucket

end Seismic
