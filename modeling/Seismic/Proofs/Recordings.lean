import Seismic.Recording

/-!
# Recordings — segments in the order of their starts

Storing a segment puts it behind those that start no later. That is what sorting by starts makes of
the recording with the segment at its end, since such a sort leaves equal starts in their order.

* **`Recording.sorted_insert`**, **`perm_insert`**: the order is kept, and nothing else is added;
* **`Recording.eq_of_filter_startsAt`**: what is in order is decided by the segments at each start;
* **`Recording.sortedByStart_concat`**, **`foldl_insert`**: sorting anew gives the same recording,
  after one segment and after many.
-/

namespace Seismic.Recording

theorem coverage_nil : coverage [] = none := by decide +kernel

/-- No segment starts before the one before it. -/
def Sorted (r : Recording) : Prop := r.Pairwise fun a b => a.start.totalLe b.start = true

theorem totalLe_trans {x y z : Binary64} (hxy : x.totalLe y = true) (hyz : y.totalLe z = true) :
    x.totalLe z = true := by
  unfold Binary64.totalLe at *
  simp only [decide_eq_true_eq] at *
  omega

/-- Any two numbers are in order one way or the other. -/
theorem totalLe_total (x y : Binary64) : (x.totalLe y || y.totalLe x) = true := by
  unfold Binary64.totalLe
  simp only [Bool.or_eq_true, decide_eq_true_eq]
  omega

theorem totalLe_refl (x : Binary64) : x.totalLe x = true := by
  have htotal := totalLe_total x x
  rwa [Bool.or_self] at htotal

theorem totalLe_of_not_totalLe {x y : Binary64} (h : x.totalLe y = false) :
    y.totalLe x = true := by
  have htotal := totalLe_total x y
  rw [h, Bool.false_or] at htotal
  exact htotal

theorem start_trans (a b c : Segment Time) (hab : a.start.totalLe b.start = true)
    (hbc : b.start.totalLe c.start = true) : a.start.totalLe c.start = true :=
  totalLe_trans hab hbc

theorem start_total (a b : Segment Time) :
    (a.start.totalLe b.start || b.start.totalLe a.start) = true :=
  totalLe_total a.start b.start

/-! ## Inserting -/

/-- Nothing is lost, and one segment is added. -/
theorem perm_insert (segment : Segment Time) (r : Recording) :
    (r.insert segment).Perm (segment :: r) := by
  induction r with
  | nil => exact List.Perm.refl _
  | cons s rest ih =>
    unfold insert
    split
    · exact (ih.cons s).trans (List.Perm.swap segment s rest)
    · exact List.Perm.refl _

/-- The order is kept. -/
theorem sorted_insert {segment : Segment Time} {r : Recording} (h : r.Sorted) :
    Sorted (r.insert segment) := by
  -- By induction on the recording: the segment goes behind the first one, or in front of it.
  induction r with
  | nil => exact List.pairwise_singleton _ _
  | cons s rest ih =>
    obtain ⟨hfirst, hrest⟩ := List.pairwise_cons.mp h
    unfold insert
    split
    · next hbefore =>
      refine List.pairwise_cons.mpr ⟨fun other hother => ?_, ih hrest⟩
      rcases List.mem_cons.mp ((perm_insert segment rest).mem_iff.mp hother) with rfl | hother
      · exact hbefore
      · exact hfirst other hother
    · next hafter =>
      have hlater := totalLe_of_not_totalLe (Bool.eq_false_iff.mpr hafter)
      refine List.pairwise_cons.mpr ⟨fun other hother => ?_, h⟩
      rcases List.mem_cons.mp hother with rfl | hother
      · exact hlater
      · exact totalLe_trans hlater (hfirst other hother)

/-! ## Sorting

A recording in order is known by its segments at each start, in their order. Neither inserting nor
sorting changes the order of those. -/

/-- The segments in the order of their starts, those with one start as they were. -/
def sortedByStart (segments : List (Segment Time)) : Recording :=
  segments.mergeSort fun a b => a.start.totalLe b.start

theorem sorted_sortedByStart (segments : List (Segment Time)) : Sorted (sortedByStart segments) :=
  List.pairwise_mergeSort start_trans start_total segments

/-- Whether a segment starts at a time. -/
def startsAt (t : Time) (s : Segment Time) : Bool := s.start.totalLe t && t.totalLe s.start

theorem startsAt_self (s : Segment Time) : startsAt s.start s = true := by
  rw [startsAt, totalLe_refl, Bool.true_and]

/-- Segments with one start are in order as they come. -/
theorem sorted_filter_startsAt (segments : List (Segment Time)) (t : Time) :
    Sorted (segments.filter (startsAt t)) := by
  refine List.Pairwise.imp_of_mem (fun ha hb _ => ?_) (List.pairwise_of_forall fun _ _ => trivial)
  have hafter := (Bool.and_eq_true_iff.mp (List.mem_filter.mp hb).2).2
  exact totalLe_trans (Bool.and_eq_true_iff.mp (List.mem_filter.mp ha).2).1 hafter

/-- Sorting leaves the segments at a start in their order, since the sort is stable. -/
theorem filter_sortedByStart (segments : List (Segment Time)) (t : Time) :
    (sortedByStart segments).filter (startsAt t) = segments.filter (startsAt t) := by
  have hperm := List.mergeSort_perm segments fun a b => a.start.totalLe b.start
  -- What was in order already stays in order, and there is no more of it than before.
  have hstable := List.sublist_mergeSort start_trans start_total
    (sorted_filter_startsAt segments t) List.filter_sublist
  have hkept := hstable.filter (startsAt t)
  rw [List.filter_filter] at hkept
  simp only [Bool.and_self] at hkept
  exact (hkept.eq_of_length (hperm.filter _).length_eq.symm).symm

/-- Where one recording has a segment, one that is in order begins no later. -/
theorem exists_first_of_filter_eq {s : Segment Time} {rest r : Recording} (hr : r.Sorted)
    (h : (s :: rest).filter (startsAt s.start) = r.filter (startsAt s.start)) :
    ∃ first others, r = first :: others ∧ first.start.totalLe s.start = true := by
  have hmem : s ∈ r := by
    have hs : s ∈ (s :: rest).filter (startsAt s.start) :=
      List.mem_filter.mpr ⟨List.mem_cons_self, startsAt_self s⟩
    rw [h] at hs
    exact (List.mem_filter.mp hs).1
  cases r with
  | nil => cases hmem
  | cons first others =>
    refine ⟨first, others, rfl, ?_⟩
    rcases List.mem_cons.mp hmem with rfl | hmem
    · exact (Bool.and_eq_true_iff.mp (startsAt_self s)).1
    · exact (List.pairwise_cons.mp hr).1 s hmem

/-- **Two recordings in order are the same if they have the same segments at every start.** -/
theorem eq_of_filter_startsAt {r r' : Recording} (hr : r.Sorted) (hr' : r'.Sorted)
    (h : ∀ t, r.filter (startsAt t) = r'.filter (startsAt t)) : r = r' := by
  induction r generalizing r' with
  | nil =>
    cases r' with
    | nil => rfl
    | cons s rest =>
      obtain ⟨_, _, hnil, -⟩ := exists_first_of_filter_eq hr (h s.start).symm
      cases hnil
  | cons s rest ih =>
    obtain ⟨s', rest', rfl, hle⟩ := exists_first_of_filter_eq hr' (h s.start)
    obtain ⟨_, _, hcons, hge⟩ := exists_first_of_filter_eq hr (h s'.start).symm
    obtain ⟨rfl, rfl⟩ := List.cons.inj hcons
    -- Both begin with the first segment at the earliest start, so the rest can be compared.
    have hsame : startsAt s.start s' = true := Bool.and_eq_true_iff.mpr ⟨hle, hge⟩
    have hfirst := h s.start
    rw [List.filter_cons_of_pos (startsAt_self s), List.filter_cons_of_pos hsame] at hfirst
    obtain ⟨rfl, -⟩ := List.cons.inj hfirst
    have hrest := ih (List.pairwise_cons.mp hr).2 (List.pairwise_cons.mp hr').2 fun t => by
      have ht := h t
      simp only [List.filter_cons] at ht
      split at ht
      · exact (List.cons.inj ht).2
      · exact ht
    rw [hrest]

/-- Inserting puts a segment behind those with its start. -/
theorem filter_insert {r : Recording} (h : r.Sorted) (segment : Segment Time) (t : Time) :
    (r.insert segment).filter (startsAt t) = (r ++ [segment]).filter (startsAt t) := by
  induction r with
  | nil => rfl
  | cons s rest ih =>
    obtain ⟨hfirst, hrest⟩ := List.pairwise_cons.mp h
    unfold insert
    split
    · rw [List.cons_append, List.filter_cons, List.filter_cons, ih hrest]
    · next hlater =>
      cases hsegment : startsAt t segment with
      | false =>
        simp [List.filter_append, List.filter_cons, hsegment]
      | true =>
        -- Those behind it start later, so none of them is at the start.
        have hnone : (s :: rest).filter (startsAt t) = [] := by
          rw [List.filter_eq_nil_iff]
          intro other hother hat
          have hby := totalLe_trans (Bool.and_eq_true_iff.mp hat).1
            (Bool.and_eq_true_iff.mp hsegment).2
          rcases List.mem_cons.mp hother with rfl | hother
          · exact hlater hby
          · exact hlater (totalLe_trans (hfirst other hother) hby)
        rw [List.filter_append, hnone, List.filter_cons_of_pos hsegment, hnone,
          List.filter_cons_of_pos hsegment]
        rfl

/-- **Sorting anew is inserting.** -/
theorem sortedByStart_concat {r : Recording} (h : r.Sorted) (segment : Segment Time) :
    sortedByStart (r ++ [segment]) = r.insert segment := by
  refine eq_of_filter_startsAt (sorted_sortedByStart _) (sorted_insert h) fun t => ?_
  rw [filter_sortedByStart, filter_insert h]

/-- **Inserting one segment after the other is sorting them in at once.** -/
theorem foldl_insert {r : Recording} (h : r.Sorted) (segments : List (Segment Time)) :
    segments.foldl (fun r segment => r.insert segment) r = sortedByStart (r ++ segments) := by
  induction segments generalizing r with
  | nil =>
    rw [List.foldl_nil, List.append_nil]
    exact eq_of_filter_startsAt h (sorted_sortedByStart r) fun t => (filter_sortedByStart r t).symm
  | cons segment rest ih =>
    rw [List.foldl_cons, ih (sorted_insert h)]
    refine eq_of_filter_startsAt (sorted_sortedByStart _) (sorted_sortedByStart _) fun t => ?_
    rw [filter_sortedByStart, filter_sortedByStart, List.filter_append, filter_insert h,
      ← List.filter_append, List.append_assoc]
    rfl

end Seismic.Recording
