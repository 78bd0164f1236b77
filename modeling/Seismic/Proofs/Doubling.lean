import Seismic.Proofs.Gaps
import Seismic.Proofs.Gathering
import Seismic.Proofs.Recordings

/-!
# Doubling — recordings in which every segment comes twice

Where segments are stored once more, those with one start come twice, one after the other and in the
same order. Whatever goes through the segments passes each such stretch a second time, and is then
where it was after the first.

* **`Doubled`**: a list in which stretches come twice in a row;
* **`Doubled.foldl_eq`**: a walk through it, if no stretch changes anything the second time;
* **`foldl_pick_twice`**: picking one of several is such a walk;
* **`Recording.doubled_of_filter`**, **`doubled_foldl_insert`**: recordings with every segment twice
  are such lists;
* **`Recording.coverage_doubled`**, **`wave_doubled`**, **`gaps_doubled`**,
  **`Helicorder.rows_doubled`** and **`Rsam.rows_doubled`**: what is asked of one.
-/

namespace Seismic

/-- A list in which stretches come twice in a row, made from one in which they come once. -/
inductive Doubled {α : Type} : List α → List α → Prop
  | nil : Doubled [] []
  | stretch (g : List α) {l l' : List α} (h : Doubled l l') : Doubled (g ++ l) (g ++ (g ++ l'))

namespace Doubled

variable {α β σ : Type} {l l' : List α}

/-- What is made of a list piece by piece is doubled with it. -/
theorem through {f : List α → List β} (hnil : f [] = [])
    (happend : ∀ x y, f (x ++ y) = f x ++ f y) (h : Doubled l l') : Doubled (f l) (f l') := by
  induction h with
  | nil =>
    rw [hnil]
    exact .nil
  | stretch g _ ih =>
    rw [happend, happend, happend]
    exact .stretch (f g) ih

theorem map (f : α → β) (h : Doubled l l') : Doubled (l.map f) (l'.map f) :=
  h.through List.map_nil fun _ _ => List.map_append

theorem filter (p : α → Bool) (h : Doubled l l') : Doubled (l.filter p) (l'.filter p) :=
  h.through List.filter_nil fun _ _ => List.filter_append ..

theorem filterMap (f : α → Option β) (h : Doubled l l') :
    Doubled (l.filterMap f) (l'.filterMap f) :=
  h.through List.filterMap_nil fun _ _ => List.filterMap_append

theorem flatMap (f : α → List β) (h : Doubled l l') : Doubled (l.flatMap f) (l'.flatMap f) :=
  h.through List.flatMap_nil fun _ _ => List.flatMap_append

/-- A doubled list has everything twice. -/
theorem perm (h : Doubled l l') : l'.Perm (l ++ l) := by
  induction h with
  | nil => exact .refl _
  | @stretch g l l' _ ih =>
    have hmiddle : (g ++ (l ++ l)).Perm (l ++ (g ++ l)) := by
      rw [← List.append_assoc, ← List.append_assoc]
      exact List.perm_append_comm.append_right l
    rw [List.append_assoc]
    exact ((ih.append_left g).trans hmiddle).append_left g

/-- So it has nothing new. -/
theorem mem_iff (h : Doubled l l') {x : α} : x ∈ l' ↔ x ∈ l := by
  rw [h.perm.mem_iff, List.mem_append, or_self]

theorem head?_eq (h : Doubled l l') : l'.head? = l.head? := by
  induction h with
  | nil => rfl
  | stretch g _ ih =>
    cases g with
    | nil => exact ih
    | cons x rest => rfl

/-- **A walk through a doubled list**, if no stretch changes anything the second time. -/
theorem foldl_eq {step : σ → α → σ}
    (htwice : ∀ (g : List α) (s : σ), g.foldl step (g.foldl step s) = g.foldl step s)
    (h : Doubled l l') (s : σ) : l'.foldl step s = l.foldl step s := by
  induction h generalizing s with
  | nil => rfl
  | stretch g _ ih => rw [List.foldl_append, List.foldl_append, List.foldl_append, htwice, ih]

end Doubled

/-! ## Picking one of several -/

/-- **What is picked the second time is picked already**: a whole stretch comes down to one pick. -/
theorem foldl_pick_twice {α : Type} {pick : α → α → α} [hassoc : Std.Associative pick]
    [hidem : Std.IdempotentOp pick] (g : List α) (s : α) :
    g.foldl pick (g.foldl pick s) = g.foldl pick s := by
  cases g with
  | nil => rfl
  | cons x rest =>
    -- The picks of the stretch come down to one, and picking the same twice is picking it once.
    rw [List.foldl_cons, List.foldl_cons, List.foldl_assoc, List.foldl_assoc, hassoc.assoc,
      hidem.idempotent]

namespace Binary64

instance : Std.Associative max where
  assoc x y z := by
    unfold max lt
    grind

instance : Std.Associative min where
  assoc x y z := by
    unfold min lt
    grind

instance : Std.IdempotentOp max := ⟨fun x => ite_self x⟩

instance : Std.IdempotentOp min := ⟨fun x => ite_self x⟩

end Binary64

namespace Recording

/-- Of a piece and itself either is the earlier one. -/
theorem earlier_self (p : Segment Time) : earlier p p = p := ite_self p

instance : Std.IdempotentOp earlier := ⟨earlier_self⟩

instance : Std.Associative earlier where
  assoc p q s := by
    unfold earlier Binary64.totalLe
    grind

/-! ## Recordings with every segment twice -/

section Stored

variable {r r' : Recording} {t : Time}

/-- In a recording that starts no earlier than at `t`, the segments at `t` come first. -/
theorem filter_startsAt_append (hr : r.Sorted) (hfirst : ∀ s ∈ r, t.totalLe s.start = true) :
    r = r.filter (startsAt t) ++ r.filter fun s => !startsAt t s := by
  induction r with
  | nil => rfl
  | cons s rest ih =>
    obtain ⟨hs, hrest⟩ := List.pairwise_cons.mp hr
    obtain ⟨hle, hfirst⟩ := List.forall_mem_cons.mp hfirst
    by_cases hat : startsAt t s = true
    · rw [List.filter_cons_of_pos hat, List.filter_cons_of_neg (by rw [hat]; decide),
        List.cons_append, ← ih hrest hfirst]
    · -- It starts later than at `t`, and so do all behind it.
      have hlater : ∀ other ∈ s :: rest, startsAt t other = false := by
        intro other hother
        rw [← Bool.not_eq_true]
        intro hother'
        have hback := (Bool.and_eq_true_iff.mp hother').1
        refine hat (Bool.and_eq_true_iff.mpr ⟨?_, hle⟩)
        rcases List.mem_cons.mp hother with rfl | hother
        · exact hback
        · exact totalLe_trans (hs other hother) hback
      have hnone : (s :: rest).filter (startsAt t) = [] :=
        List.filter_eq_nil_iff.mpr fun other hother => Bool.not_eq_true _ ▸ hlater other hother
      have hall : ((s :: rest).filter fun s => !startsAt t s) = s :: rest :=
        List.filter_eq_self.mpr fun other hother => Bool.not_eq_true' _ ▸ hlater other hother
      rw [hnone, hall, List.nil_append]

/-- Nothing is stored that was not stored before. -/
theorem mem_of_filter_twice
    (h : ∀ t, r'.filter (startsAt t) = r.filter (startsAt t) ++ r.filter (startsAt t))
    {s : Segment Time} (hs : s ∈ r') : s ∈ r := by
  have hat : s ∈ r'.filter (startsAt s.start) := List.mem_filter.mpr ⟨hs, startsAt_self s⟩
  rw [h, List.mem_append, or_self] at hat
  exact (List.mem_filter.mp hat).1

/-- **Recordings with every segment twice** are doubled: the segments at one start are a stretch. -/
theorem doubled_of_filter (hr : r.Sorted) (hr' : r'.Sorted)
    (h : ∀ t, r'.filter (startsAt t) = r.filter (startsAt t) ++ r.filter (startsAt t)) :
    Doubled r r' := by
  -- By induction on the number of segments, with the stretch at the earliest start taken off.
  induction hlength : r.length using Nat.strong_induction_on generalizing r r' with
  | h n ih =>
    cases r with
    | nil =>
      have hnil : r' = [] := List.eq_nil_iff_forall_not_mem.mpr fun s hs =>
        List.not_mem_nil (mem_of_filter_twice h hs)
      rw [hnil]
      exact .nil
    | cons s rest =>
      have hfirst : ∀ x ∈ s :: rest, s.start.totalLe x.start = true :=
        List.forall_mem_cons.mpr ⟨totalLe_refl _, (List.pairwise_cons.mp hr).1⟩
      have hfirst' : ∀ x ∈ r', s.start.totalLe x.start = true := fun x hx =>
        hfirst x (mem_of_filter_twice h hx)
      have hfewer : ((s :: rest).filter fun x => !startsAt s.start x).length < n := by
        rw [← hlength]
        refine List.length_filter_lt_length_iff_exists.mpr ⟨s, List.mem_cons_self, ?_⟩
        rw [startsAt_self]
        decide
      have hlater : Doubled ((s :: rest).filter fun x => !startsAt s.start x)
          (r'.filter fun x => !startsAt s.start x) := by
        refine ih _ hfewer (hr.filter _) (hr'.filter _) (fun t => ?_) rfl
        rw [List.filter_comm, h, List.filter_append, List.filter_comm]
      have hstretch := Doubled.stretch ((s :: rest).filter (startsAt s.start)) hlater
      rwa [← filter_startsAt_append hr hfirst, ← List.append_assoc, ← h,
        ← filter_startsAt_append hr' hfirst'] at hstretch

/-- **Storing the same segments once more.** -/
theorem doubled_foldl_insert (segments : List (Segment Time)) {once : Recording}
    (h : once = segments.foldl (fun r segment => insert segment r) []) :
    Doubled once (segments.foldl (fun r segment => insert segment r) once) := by
  rw [foldl_insert List.Pairwise.nil, List.nil_append] at h
  subst h
  rw [foldl_insert (sorted_sortedByStart _)]
  refine doubled_of_filter (sorted_sortedByStart _) (sorted_sortedByStart _) fun t => ?_
  simp only [filter_sortedByStart, List.filter_append]

end Stored

/-! ## Coverage and waves -/

section Waves

variable {r r' : Recording} (h : Doubled r r')
include h

/-- **Coverage**: the least start and the greatest time are picked. -/
theorem coverage_doubled : r'.coverage = r.coverage := by
  unfold coverage
  simp only [(h.map _).foldl_eq foldl_pick_twice, ((h.filter _).map _).foldl_eq foldl_pick_twice]

theorem clipped_doubled (window : Span Time) : Doubled (r.clipped window) (r'.clipped window) :=
  h.filterMap _

end Waves

section Pieces

variable {pieces pieces' : List (Segment Time)}

/-- The earliest piece is picked, with the first one to begin with. -/
theorem earliest_eq (pieces : List (Segment Time)) :
    earliest pieces = pieces.head?.map fun p => pieces.foldl earlier p := by
  cases pieces with
  | nil => rfl
  | cons p rest =>
    rw [List.head?_cons, Option.map_some, List.foldl_cons, earlier_self]
    rfl

/-- Laying pieces over a grid on which they lie already changes nothing. -/
theorem overlaid_twice (anchor rate : Time) (pieces : List (Segment Time)) (grid : List Int32) :
    overlaid anchor rate pieces (overlaid anchor rate pieces grid) =
      overlaid anchor rate pieces grid := by
  have hlength := length_overlaid anchor rate pieces grid
  refine List.ext_getElem? fun k => ?_
  by_cases hk : k < grid.length
  · rw [getElem?_overlaid anchor rate pieces (Nat.lt_of_lt_of_eq hk hlength.symm),
      getElem?_overlaid anchor rate pieces hk, ← Option.or_assoc, Option.or_self]
  · rw [List.getElem?_eq_none (by rw [length_overlaid, hlength]; omega),
      List.getElem?_eq_none (by omega)]

variable (h : Doubled pieces pieces')
include h

theorem earliest_doubled : earliest pieces' = earliest pieces := by
  rw [earliest_eq, earliest_eq, h.head?_eq]
  simp only [h.foldl_eq foldl_pick_twice]

theorem slotCount_doubled (anchor rate : Time) (cap : Nat) :
    slotCount pieces' anchor rate cap = slotCount pieces anchor rate cap := by
  unfold slotCount
  simp only [(h.map _).foldl_eq foldl_pick_twice]

/-- Pieces are laid over a grid stretch by stretch. -/
theorem overlaid_doubled (anchor rate : Time) (grid : List Int32) :
    overlaid anchor rate (fitting pieces' rate) grid =
      overlaid anchor rate (fitting pieces rate) grid :=
  (h.filter _).foldl_eq (overlaid_twice anchor rate) grid

end Pieces

/-- **Waves**: the grid, its length and what is laid over it. -/
theorem wave_doubled {r r' : Recording} (h : Doubled r r') (window : Span Time) (cap : Nat) :
    r'.wave window cap = r.wave window cap := by
  have hpieces := clipped_doubled h window
  have hsamples := overlaid_doubled hpieces
  unfold overlaid fitting at hsamples
  unfold wave
  simp only [earliest_doubled hpieces, slotCount_doubled hpieces, hsamples]

/-! ## Gaps

A gap ends at a reading only if the cursor is before it, and the reading brings the cursor behind
it. Only where the time of the reading is one that nothing is before can the cursor stay. -/

section Gaps

variable {cursor t stop : Time} {x : Time × Time} {readings readings' : List (Time × Time)}

/-- The cursor is not before `t`, and will not be. -/
def Settled (cursor t : Time) : Prop := (∀ c : Time, c.lt t = false) ∨ t.le cursor = true

/-- A reading, with its sample period, that brings the cursor behind it. -/
def Moves (x : Time × Time) : Prop := (∀ c : Time, c.lt x.1 = false) ∨ x.1.le (x.1 + x.2) = true

/-- No gap ends where the cursor is already. -/
theorem Settled.gapTo_eq_nil (h : Settled cursor t) : gapTo cursor t = [] := by
  have hnot : cursor.lt t = false := by
    rcases h with hnone | hle
    · exact hnone cursor
    · rw [← Bool.not_eq_true]
      intro hlt
      rw [Binary64.le_eq_false_of_lt hlt] at hle
      cases hle
  refine List.eq_nil_iff_forall_not_mem.mpr fun gap hgap => ?_
  rw [(mem_gapTo hgap).2] at hnot
  cases hnot

theorem Settled.max (h : Settled cursor t) (y : Time) : Settled (cursor.max y) t := by
  rcases h with hnone | hle
  · exact .inl hnone
  · exact .inr (Binary64.le_trans hle (Binary64.le_max_left (Binary64.isNaN_of_le hle).2 y))

theorem Settled.cursorAfter (h : Settled cursor t) (readings : List (Time × Time)) :
    Settled (cursorAfter cursor readings) t := by
  induction readings generalizing cursor with
  | nil => exact h
  | cons y rest ih => exact ih (h.max _)

theorem Moves.settled (h : Moves x) (cursor : Time) : Settled (cursor.max (x.1 + x.2)) x.1 := by
  rcases h with hnone | hle
  · exact .inl hnone
  · exact .inr (Binary64.le_trans hle (Binary64.le_max_right cursor (Binary64.isNaN_of_le hle).2))

/-- Behind some readings the cursor is before none of them. -/
theorem settled_cursorAfter (h : ∀ x ∈ readings, Moves x) (hx : x ∈ readings) :
    Settled (cursorAfter cursor readings) x.1 := by
  induction readings generalizing cursor with
  | nil => cases hx
  | cons y rest ih =>
    obtain ⟨hy, hrest⟩ := List.forall_mem_cons.mp h
    rcases List.mem_cons.mp hx with rfl | hx
    · exact (hy.settled cursor).cursorAfter rest
    · exact ih hrest hx

/-- Behind its readings a stretch has no gaps left. -/
theorem gapsUpTo_of_settled (h : ∀ x ∈ readings, Settled cursor x.1) :
    gapsUpTo cursor readings = [] := by
  induction readings generalizing cursor with
  | nil => rfl
  | cons x rest ih =>
    obtain ⟨hx, hrest⟩ := List.forall_mem_cons.mp h
    rw [gapsUpTo, hx.gapTo_eq_nil, List.nil_append]
    exact ih fun y hy => (hrest y hy).max _

/-- Nor does it move the cursor again. -/
theorem cursorAfter_twice (cursor : Time) (readings : List (Time × Time)) :
    cursorAfter (cursorAfter cursor readings) readings = cursorAfter cursor readings := by
  have hpick (cursor : Time) : cursorAfter cursor readings =
      (readings.map fun x => x.1 + x.2).foldl Binary64.max cursor := List.foldl_map.symm
  rw [hpick, hpick, foldl_pick_twice]

/-- **A walk over doubled readings finds the same gaps.** -/
theorem gapsFrom_doubled (h : Doubled readings readings') (hmoves : ∀ x ∈ readings, Moves x)
    (stop cursor : Time) : gapsFrom stop cursor readings' = gapsFrom stop cursor readings := by
  induction h generalizing cursor with
  | nil => rfl
  | stretch g _ ih =>
    obtain ⟨hg, hrest⟩ := List.forall_mem_append.mp hmoves
    have hsecond : gapsUpTo (cursorAfter cursor g) g = [] :=
      gapsUpTo_of_settled fun x hx => settled_cursorAfter hg hx
    rw [gapsFrom_append, gapsFrom_append, gapsFrom_append, hsecond, List.nil_append,
      cursorAfter_twice, ih hrest]

theorem moves_of_isNaN (h : x.1.isNaN = true) : Moves x := by
  refine .inl fun cursor => ?_
  rw [← Bool.not_eq_true]
  intro hlt
  rw [(Binary64.isNaN_of_le (Binary64.le_of_lt hlt)).2] at h
  cases h

theorem moves_of_nonneg (h : (Binary64.zero false).le x.2 = true) : Moves x := by
  cases hx : x.1.isNaN with
  | true => exact moves_of_isNaN hx
  | false =>
    rcases Binary64.finite_or_infinity hx with hfinite | hlow | hhigh
    · exact .inr (Binary64.le_add h (isNaN_add_of_nonneg (.inl hfinite) h))
    · refine .inl fun cursor => ?_
      rw [← Bool.not_eq_true, hlow]
      intro hlt
      have hle := Binary64.infinity_le (Binary64.isNaN_of_le (Binary64.le_of_lt hlt)).1
      rw [Binary64.le_eq_false_of_lt hlt] at hle
      cases hle
    · exact .inr (Binary64.le_add h (isNaN_add_of_nonneg (.inr hhigh) h))

/-- The readings of a window move the cursor, whatever the starts and rates of the segments are:
those with a rate that is not positive have none. -/
theorem moves_of_mem_walked {r : Recording} {window : Span Time} (hx : x ∈ r.walked window) :
    Moves x := by
  obtain ⟨p, hp, hx⟩ := List.mem_flatMap.mp hx
  obtain ⟨⟨t, n⟩, hreading, rfl⟩ := List.mem_map.mp hx
  obtain ⟨i, -, -, rfl⟩ := Segment.mem_readings_iff.mp hreading
  cases hrate : p.rate.isNaN with
  | true =>
    refine moves_of_isNaN ?_
    show (p.sampleTime i).isNaN = true
    rw [Segment.sampleTime, Binary64.div_nan _ hrate, Binary64.add_nan _ rfl]
    decide
  | false =>
    have hlt := Binary64.rank_pos_of_not_le_zero hrate (of_mem_clipped hp).2
    exact moves_of_nonneg
      (Binary64.zero_le_div (Binary64.zero_le_ofNat 1) (by decide +kernel) hrate hlt)

theorem gaps_doubled {r r' : Recording} (h : Doubled r r') (window : Span Time) :
    r'.gaps window = r.gaps window :=
  gapsFrom_doubled ((clipped_doubled h window).flatMap _) (fun _ hx => moves_of_mem_walked hx) _ _

end Gaps

end Recording

/-! ## Products -/

namespace Bucket

variable {pieces pieces' : List (Segment Time)}

/-- Sums that are not rounded, of no more samples than 64 bits can count. -/
structure Exact (interval : Time) (pieces : List (Segment Time)) : Prop where
  sums : ∀ k, total (within interval pieces k) < 2 ^ 53
  counts : ∀ k, (within interval pieces k).length < 2 ^ 64

theorem keyed_doubled (h : Doubled pieces pieces') (interval : Time) :
    Doubled (keyed interval pieces) (keyed interval pieces') :=
  (h.flatMap _).map _

theorem samplesAt_doubled {entries entries' : List (Int × Int)} (h : Doubled entries entries')
    (k : Int) : (samplesAt entries' k).Perm (samplesAt entries k ++ samplesAt entries k) :=
  ((h.filter _).map _).perm

/-- **Twice the sum over twice the count.** -/
theorem Holds.mean_doubled {samples samples' : List Int} {b b' : Bucket Time} (h : b.Holds samples)
    (h' : b'.Holds samples') (hperm : samples'.Perm (samples ++ samples))
    (hsum : total samples' < 2 ^ 53) (hcount : samples'.length < 2 ^ 64) : b.mean = b'.mean := by
  have htotal : total samples' = 2 * total samples := by
    rw [total_perm hperm, total, List.map_append, List.sum_append, Nat.two_mul]
    rfl
  have hlength : b'.count = 2 * b.count := by
    rw [h'.count, h.count, hperm.length_eq, List.length_append, Nat.two_mul]
  rw [← h'.count, hlength] at hcount
  rw [h'.mean_eq hsum, h.mean_eq (by omega), htotal, hlength]
  exact (Binary64.div_ofNat_double (htotal ▸ hsum) h.count_pos hcount).symm

end Bucket

variable {pieces pieces' : List (Segment Time)} (h : Doubled pieces pieces')
include h

theorem Helicorder.rows_doubled (coarse : Bool) : rows coarse pieces' = rows coarse pieces := by
  have hkeyed := Bucket.keyed_doubled h (interval coarse)
  unfold rows
  rw [Bucket.gather_eq_collect, Bucket.gather_eq_collect]
  refine Table.map_entries_eq (f := fun b => (b.least, b.greatest)) (fun k b b' hsame => ?_)
    (Bucket.map_collect_eq (fun _ => hkeyed.mem_iff) fun k b b' hholds hholds' => ?_)
  · obtain ⟨hleast, hgreatest⟩ := Prod.mk.inj hsame
    simp only [row, hleast, hgreatest]
  · obtain ⟨hleast, hgreatest⟩ := hholds.bounds_eq hholds' fun n => by
      rw [Bucket.mem_samplesAt_iff, Bucket.mem_samplesAt_iff, hkeyed.mem_iff]
    rw [hleast, hgreatest]

theorem Rsam.rows_doubled {period : Option Nat} (hexact : Bucket.Exact (interval period) pieces') :
    rows period pieces' = rows period pieces := by
  have hkeyed := Bucket.keyed_doubled h (interval period)
  unfold rows
  rw [Bucket.gather_eq_collect, Bucket.gather_eq_collect]
  refine Table.map_entries_eq (f := Bucket.mean) (fun k b b' hsame => ?_)
    (Bucket.map_collect_eq (fun _ => hkeyed.mem_iff) fun k b b' hholds hholds' => ?_)
  · simp only [row, hsame]
  · have hsum := hexact.sums k
    have hcount := hexact.counts k
    rw [← Bucket.samplesAt_keyed] at hsum hcount
    exact (hholds'.mean_doubled hholds (Bucket.samplesAt_doubled hkeyed k) hsum hcount).symm

end Seismic
