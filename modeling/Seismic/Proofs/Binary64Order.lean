import Seismic.Number.Binary64

/-!
# Binary64Order — comparing and clamping numbers

Away from `nan`s the comparisons and the two clamps of `Binary64` are those of the integer `rank`.
This module brings them there, so that whatever only compares times is settled by linear arithmetic
over ranks:

* **`le_iff_rank`**, **`lt_iff_rank`**: comparing two numbers is comparing their ranks;
* **`max_le_iff`**, **`le_min_iff`**: a clamped number is at most, or at least, what the number and
  the limit both are; `max_le_iff_not_lt` and `le_min_iff_not_lt` allow any limit;
* **`finite_or_infinity`**, **`infinity_le`**, **`le_infinity`**: the two ends of the line;
* **`foldl_max_mem`**, **`le_foldl_max`**: the greatest of several numbers is one of them, and none
  is greater; **`foldl_min_mem`** and **`foldl_min_le`** say the same of the least, and
  `isFinite_foldl_max_iff` and `isFinite_foldl_min_iff` when they are finite;
* **`max_of_isNaN`**, **`min_of_isNaN`**: a limit that is not a number does not clamp;
* **`isNaN_add`**, **`isNaN_sub`**: a finite number plus or minus a number is a number.
-/

namespace Seismic.Binary64

/-! ## Kinds of numbers -/

theorem isNaN_eq_false_iff (x : Binary64) : x.isNaN = false ↔ x.code ≤ infinityCode := by
  rw [isNaN, decide_eq_false_iff_not, Nat.not_lt]

theorem isNaN_of_isFinite {x : Binary64} (h : x.isFinite = true) : x.isNaN = false := by
  rw [isFinite, decide_eq_true_eq] at h
  rw [isNaN_eq_false_iff]
  exact Nat.le_of_lt h

theorem isInfinite_of_isFinite {x : Binary64} (h : x.isFinite = true) : x.isInfinite = false := by
  rw [isFinite, decide_eq_true_eq] at h
  rw [isInfinite, beq_eq_false_iff_ne]
  exact Nat.ne_of_lt h

/-! ## Comparisons -/

theorem le_iff_rank {x y : Binary64} (hx : x.isNaN = false) (hy : y.isNaN = false) :
    x.le y = true ↔ x.rank ≤ y.rank := by
  simp [le, hx, hy]

theorem lt_iff_rank {x y : Binary64} (hx : x.isNaN = false) (hy : y.isNaN = false) :
    x.lt y = true ↔ x.rank < y.rank := by
  simp [lt, hx, hy]

/-- Only numbers compare. -/
theorem isNaN_of_le {x y : Binary64} (h : x.le y = true) : x.isNaN = false ∧ y.isNaN = false := by
  simp only [le, Bool.and_eq_true, Bool.not_eq_true'] at h
  exact h.1

theorem rank_le_of_le {x y : Binary64} (h : x.le y = true) : x.rank ≤ y.rank := by
  obtain ⟨hx, hy⟩ := isNaN_of_le h
  exact (le_iff_rank hx hy).mp h

theorem le_refl {x : Binary64} (hx : x.isNaN = false) : x.le x = true :=
  (le_iff_rank hx hx).mpr (Int.le_refl _)

theorem le_trans {x y z : Binary64} (hxy : x.le y = true) (hyz : y.le z = true) :
    x.le z = true := by
  have hx := (isNaN_of_le hxy).1
  have hz := (isNaN_of_le hyz).2
  rw [le_iff_rank hx hz]
  exact Int.le_trans (rank_le_of_le hxy) (rank_le_of_le hyz)

theorem numEq_iff_le {x y : Binary64} :
    x.numEq y = true ↔ x.le y = true ∧ y.le x = true := by
  unfold numEq le
  simp only [Bool.and_eq_true, Bool.not_eq_true', decide_eq_true_eq]
  constructor
  · rintro ⟨⟨hx, hy⟩, heq⟩
    exact ⟨⟨⟨hx, hy⟩, Int.le_of_eq heq⟩, ⟨⟨hy, hx⟩, Int.le_of_eq heq.symm⟩⟩
  · rintro ⟨⟨⟨hx, hy⟩, hle⟩, -, hge⟩
    exact ⟨⟨hx, hy⟩, Int.le_antisymm hle hge⟩

theorem numEq_iff_rank {x y : Binary64} (hx : x.isNaN = false) (hy : y.isNaN = false) :
    x.numEq y = true ↔ x.rank = y.rank := by
  simp [numEq, hx, hy]

/-- Of two numbers either the first is at most the second, or the second is less. -/
theorem le_eq_false_iff {x y : Binary64} (hx : x.isNaN = false) (hy : y.isNaN = false) :
    x.le y = false ↔ y.lt x = true := by
  rw [← Bool.not_eq_true, le_iff_rank hx hy, lt_iff_rank hy hx, Int.not_le]

theorem le_of_lt_eq_false {x y : Binary64} (hx : x.isNaN = false) (hy : y.isNaN = false)
    (h : y.lt x = false) : x.le y = true := by
  rw [← Bool.not_eq_false, le_eq_false_iff hx hy, h]
  exact Bool.false_ne_true

/-- A positive number is the only one of its rank. -/
theorem eq_of_rank_eq {x y : Binary64} (hy : 0 < y.rank) (h : x.rank = y.rank) : x = y := by
  rcases x with ⟨xnegative, xcode, hx⟩
  rcases y with ⟨ynegative, ycode, hy'⟩
  unfold rank at hy h
  -- Both are positive, so the ranks are the codes; the other signs leave no positive rank.
  cases xnegative <;> cases ynegative <;>
    simp only [Bool.false_eq_true, if_true, if_false] at hy h
  · have hcode : xcode = ycode := by omega
    subst hcode
    rfl
  · omega
  · omega
  · omega

/-- The total order only tells more numbers apart. -/
theorem rank_le_of_totalLe {x y : Binary64} (h : x.totalLe y = true) : x.rank ≤ y.rank := by
  have htotal : x.totalRank ≤ y.totalRank := of_decide_eq_true h
  unfold totalRank at htotal
  unfold rank
  cases hxsign : x.negative <;> cases hysign : y.negative <;>
    simp only [hxsign, hysign, Bool.false_eq_true, if_true, if_false] at htotal ⊢ <;> omega

theorem le_of_totalLe {x y : Binary64} (hx : x.isNaN = false) (hy : y.isNaN = false)
    (h : x.totalLe y = true) : x.le y = true := by
  rw [le_iff_rank hx hy]
  exact rank_le_of_totalLe h

theorem rank_lt_of_lt {x y : Binary64} (h : x.lt y = true) : x.rank < y.rank := by
  simp only [lt, Bool.and_eq_true, Bool.not_eq_true', decide_eq_true_eq] at h
  exact h.2

theorem le_of_lt {x y : Binary64} (h : x.lt y = true) : x.le y = true := by
  simp only [lt, Bool.and_eq_true, Bool.not_eq_true', decide_eq_true_eq] at h
  obtain ⟨⟨hx, hy⟩, hlt⟩ := h
  rw [le_iff_rank hx hy]
  exact Int.le_of_lt hlt

theorem lt_of_le_of_lt {x y z : Binary64} (hxy : x.le y = true) (hyz : y.lt z = true) :
    x.lt z = true := by
  have hx := (isNaN_of_le hxy).1
  have hz := (isNaN_of_le (le_of_lt hyz)).2
  rw [lt_iff_rank hx hz]
  exact Int.lt_of_le_of_lt (rank_le_of_le hxy) (rank_lt_of_lt hyz)

/-- What is less than a number is not above it. -/
theorem le_eq_false_of_lt {x y : Binary64} (h : x.lt y = true) : y.le x = false := by
  obtain ⟨hx, hy⟩ := isNaN_of_le (le_of_lt h)
  exact (le_eq_false_iff hy hx).mpr h

/-- A number above one that is not below `z` is not below `z` either. -/
theorem lt_eq_false_of_le {x y z : Binary64} (hxy : x.le y = true) (hxz : x.lt z = false) :
    y.lt z = false := by
  obtain ⟨hx, hy⟩ := isNaN_of_le hxy
  -- Nothing is below what is not a number; otherwise the ranks decide.
  cases hz : z.isNaN with
  | true => simp [lt, hz]
  | false =>
    have hrank := rank_le_of_le hxy
    rw [← Bool.not_eq_true, lt_iff_rank hx hz] at hxz
    rw [← Bool.not_eq_true, lt_iff_rank hy hz]
    omega

/-! ## The ends of the line -/

/-- **A number is finite or one of the two infinities.** -/
theorem finite_or_infinity {x : Binary64} (hx : x.isNaN = false) :
    x.isFinite = true ∨ x = infinity true ∨ x = infinity false := by
  rw [isNaN_eq_false_iff] at hx
  rcases Nat.lt_or_eq_of_le hx with hlt | heq
  · exact .inl (decide_eq_true hlt)
  · rcases x with ⟨negative, code, hcode⟩
    obtain rfl : code = infinityCode := heq
    cases negative with
    | true => exact .inr (.inl rfl)
    | false => exact .inr (.inr rfl)

/-- A rank is a code with a sign. -/
theorem rank_bounds (x : Binary64) : -(x.code : Int) ≤ x.rank ∧ x.rank ≤ x.code := by
  unfold rank
  split <;> omega

theorem rank_infinity : (infinity true).rank = -infinityCode ∧
    (infinity false).rank = infinityCode := ⟨rfl, rfl⟩

theorem infinity_le {x : Binary64} (hx : x.isNaN = false) : (infinity true).le x = true := by
  have hcode := (isNaN_eq_false_iff x).mp hx
  have hbounds := x.rank_bounds
  rw [le_iff_rank rfl hx, rank_infinity.1]
  omega

theorem le_infinity {x : Binary64} (hx : x.isNaN = false) : x.le (infinity false) = true := by
  have hcode := (isNaN_eq_false_iff x).mp hx
  have hbounds := x.rank_bounds
  rw [le_iff_rank hx rfl, rank_infinity.2]
  omega

theorem rank_lt_infinity {x : Binary64} (hx : x.isFinite = true) :
    (infinity true).rank < x.rank ∧ x.rank < (infinity false).rank := by
  have hcode : x.code < infinityCode := of_decide_eq_true hx
  have hbounds := x.rank_bounds
  rw [rank_infinity.1, rank_infinity.2]
  omega

/-- What equals a finite number is finite. -/
theorem isFinite_of_numEq {x y : Binary64} (hy : y.isFinite = true) (h : x.numEq y = true) :
    x.isFinite = true := by
  obtain ⟨hle, hge⟩ := numEq_iff_le.mp h
  obtain ⟨hlow, hhigh⟩ := rank_lt_infinity hy
  rcases finite_or_infinity (isNaN_of_le hle).1 with hfinite | rfl | rfl
  · exact hfinite
  · exact absurd (rank_le_of_le hge) (Int.not_le.mpr hlow)
  · exact absurd (rank_le_of_le hle) (Int.not_le.mpr hhigh)

/-- What is not below all numbers bounds nothing that is. -/
theorem finite_or_infinity_of_le {x y : Binary64} (hx : x.isFinite = true ∨ x = infinity false)
    (h : x.le y = true) : y.isFinite = true ∨ y = infinity false := by
  have hrank := rank_le_of_le h
  rcases finite_or_infinity (isNaN_of_le h).2 with hy | rfl | rfl
  · exact .inl hy
  · rcases hx with hx | rfl
    · have hlt := (rank_lt_infinity hx).1
      omega
    · exact absurd hrank (by decide)
  · exact .inr rfl

/-! ## Clamps

Beside a number, a clamp picks the operand with the greater or the smaller rank. Beside a `nan` it
picks the other operand, so a clamped number is a number whatever it is clamped by. -/

theorem max_of_isNaN (x : Binary64) {y : Binary64} (hy : y.isNaN = true) : x.max y = x := by
  rw [max, hy, Bool.true_or, if_pos rfl]

theorem min_of_isNaN (x : Binary64) {y : Binary64} (hy : y.isNaN = true) : x.min y = x := by
  rw [min, hy, Bool.true_or, if_pos rfl]

theorem isNaN_max {x : Binary64} (hx : x.isNaN = false) (y : Binary64) :
    (x.max y).isNaN = false := by
  unfold max
  split
  · exact hx
  · next h =>
    rw [Bool.or_eq_true, not_or, Bool.not_eq_true] at h
    exact h.1

theorem isNaN_min {x : Binary64} (hx : x.isNaN = false) (y : Binary64) :
    (x.min y).isNaN = false := by
  unfold min
  split
  · exact hx
  · next h =>
    rw [Bool.or_eq_true, not_or, Bool.not_eq_true] at h
    exact h.1

theorem rank_max {x y : Binary64} (hx : x.isNaN = false) (hy : y.isNaN = false) :
    (x.max y).rank = Max.max x.rank y.rank := by
  have hlt := lt_iff_rank hy hx
  unfold max
  rw [hy, Bool.false_or]
  split
  · next h =>
    have := hlt.mp h
    omega
  · next h =>
    have := mt hlt.mpr h
    omega

theorem rank_min {x y : Binary64} (hx : x.isNaN = false) (hy : y.isNaN = false) :
    (x.min y).rank = Min.min x.rank y.rank := by
  have hlt := lt_iff_rank hx hy
  unfold min
  rw [hy, Bool.false_or]
  split
  · next h =>
    have := hlt.mp h
    omega
  · next h =>
    have := mt hlt.mpr h
    omega

/-- A clamped number is at most `z` when both the number and the limit are. -/
theorem max_le_iff {x y : Binary64} (hx : x.isNaN = false) (hy : y.isNaN = false)
    (z : Binary64) : (x.max y).le z = true ↔ x.le z = true ∧ y.le z = true := by
  have hm := isNaN_max hx y
  cases hz : z.isNaN with
  | true => simp [le, hz]
  | false =>
    rw [le_iff_rank hm hz, le_iff_rank hx hz, le_iff_rank hy hz, rank_max hx hy]
    omega

/-- A clamped number is at least `z` when both the number and the limit are. -/
theorem le_min_iff {x y : Binary64} (hx : x.isNaN = false) (hy : y.isNaN = false)
    (z : Binary64) : z.le (x.min y) = true ↔ z.le x = true ∧ z.le y = true := by
  have hm := isNaN_min hx y
  cases hz : z.isNaN with
  | true => simp [le, hz]
  | false =>
    rw [le_iff_rank hz hm, le_iff_rank hz hx, le_iff_rank hz hy, rank_min hx hy]
    omega

/-- The same for any limit: the number is at most `z`, and `z` is not below the limit. -/
theorem max_le_iff_not_lt {x : Binary64} (hx : x.isNaN = false) (limit z : Binary64) :
    (x.max limit).le z = true ↔ x.le z = true ∧ z.lt limit = false := by
  cases hl : limit.isNaN with
  | true =>
    have hlt : z.lt limit = false := by simp [lt, hl]
    simp [max_of_isNaN x hl, hlt]
  | false =>
    rw [max_le_iff hx hl, and_congr_right_iff]
    intro hxz
    have hz := (isNaN_of_le hxz).2
    rw [← Bool.not_eq_true (z.lt limit), lt_iff_rank hz hl, le_iff_rank hl hz, Int.not_lt]

/-- The same for any limit: the number is at least `z`, and the limit is not below `z`. -/
theorem le_min_iff_not_lt {x : Binary64} (hx : x.isNaN = false) (limit z : Binary64) :
    z.le (x.min limit) = true ↔ z.le x = true ∧ limit.lt z = false := by
  cases hl : limit.isNaN with
  | true =>
    have hlt : limit.lt z = false := by simp [lt, hl]
    simp [min_of_isNaN x hl, hlt]
  | false =>
    rw [le_min_iff hx hl, and_congr_right_iff]
    intro hzx
    have hz := (isNaN_of_le hzx).1
    rw [← Bool.not_eq_true (limit.lt z), lt_iff_rank hl hz, le_iff_rank hz hl, Int.not_lt]

/-- The larger of two is not below the first, whatever the second is. -/
theorem le_max_left {x : Binary64} (hx : x.isNaN = false) (y : Binary64) :
    x.le (x.max y) = true :=
  ((max_le_iff_not_lt hx y _).mp (le_refl (isNaN_max hx y))).1

/-- It is not below the second, whatever the first is. -/
theorem le_max_right (x : Binary64) {y : Binary64} (hy : y.isNaN = false) :
    y.le (x.max y) = true := by
  cases hx : x.isNaN with
  | false => exact ((max_le_iff hx hy _).mp (le_refl (isNaN_max hx y))).2
  | true =>
    have hmax : x.max y = y := by
      rw [max, hy, lt, hx, Bool.not_true, Bool.and_false]
      rfl
    rw [hmax]
    exact le_refl hy

/-! ## The greatest and the least of several numbers

Both are found by picking one of two numbers again and again. -/

section Picks

variable {pick : Binary64 → Binary64 → Binary64} {R : Binary64 → Binary64 → Prop}

/-- What is picked in the end was among the numbers. -/
theorem foldl_pick_mem (hpick : ∀ x y, pick x y = x ∨ pick x y = y) (times : List Binary64)
    (init : Binary64) : times.foldl pick init = init ∨ times.foldl pick init ∈ times := by
  induction times generalizing init with
  | nil => exact .inl rfl
  | cons t rest ih =>
    rw [List.foldl_cons]
    rcases ih (pick init t) with heq | hmem
    · rw [heq]
      rcases hpick init t with hinit | ht
      · exact .inl hinit
      · rw [ht]
        exact .inr List.mem_cons_self
    · exact .inr (List.mem_cons_of_mem t hmem)

/-- What is picked in the end bounds all numbers, if what bounds one that is picked bounds both that
it was picked from. -/
theorem foldl_pick_bounds (hrefl : ∀ x, x.isNaN = false → R x x)
    (hnumber : ∀ x y, x.isNaN = false → (pick x y).isNaN = false)
    (hboth : ∀ x y z, x.isNaN = false → R z (pick x y) → R z x ∧ (y.isNaN = false → R z y))
    (times : List Binary64) {init : Binary64} (hinit : init.isNaN = false) :
    R (times.foldl pick init) init ∧
      ∀ t ∈ times, t.isNaN = false → R (times.foldl pick init) t := by
  -- By induction on the numbers. What bounds the later picks bounds the first one, and so what that
  -- was picked from.
  induction times generalizing init with
  | nil => exact ⟨hrefl init hinit, nofun⟩
  | cons t rest ih =>
    obtain ⟨hpicked, hrest⟩ := ih (hnumber init t hinit)
    obtain ⟨hfirst, ht⟩ := hboth init t _ hinit hpicked
    exact ⟨hfirst, List.forall_mem_cons.mpr ⟨ht, hrest⟩⟩

end Picks

theorem foldl_max_mem (times : List Binary64) (init : Binary64) :
    times.foldl max init = init ∨ times.foldl max init ∈ times := by
  refine foldl_pick_mem (fun x y => ?_) times init
  unfold max
  split
  · exact .inl rfl
  · exact .inr rfl

theorem foldl_min_mem (times : List Binary64) (init : Binary64) :
    times.foldl min init = init ∨ times.foldl min init ∈ times := by
  refine foldl_pick_mem (fun x y => ?_) times init
  unfold min
  split
  · exact .inl rfl
  · exact .inr rfl

/-- No number among them is greater than the greatest. -/
theorem le_foldl_max {times : List Binary64} {init t : Binary64} (hinit : init.isNaN = false)
    (ht : t ∈ times) (hnumber : t.isNaN = false) : t.le (times.foldl max init) = true := by
  have hbounds := foldl_pick_bounds (R := fun z x => x.le z = true) (fun _ => le_refl)
    (fun x y hx => isNaN_max hx y)
    (fun x y z hx h => ⟨((max_le_iff_not_lt hx y z).mp h).1,
      fun hy => ((max_le_iff hx hy z).mp h).2⟩) times hinit
  exact hbounds.2 t ht hnumber

/-- No number among them is less than the least. -/
theorem foldl_min_le {times : List Binary64} {init t : Binary64} (hinit : init.isNaN = false)
    (ht : t ∈ times) (hnumber : t.isNaN = false) : (times.foldl min init).le t = true := by
  have hbounds := foldl_pick_bounds (R := fun z x => z.le x = true) (fun _ => le_refl)
    (fun x y hx => isNaN_min hx y)
    (fun x y z hx h => ⟨((le_min_iff_not_lt hx y z).mp h).1,
      fun hy => ((le_min_iff hx hy z).mp h).2⟩) times hinit
  exact hbounds.2 t ht hnumber

theorem not_le_infinity_true {x : Binary64} (hx : x.isFinite = true) :
    ¬ x.le (infinity true) = true := by
  intro hle
  have hlt := (rank_lt_infinity hx).1
  have hrank := rank_le_of_le hle
  omega

theorem not_infinity_false_le {x : Binary64} (hx : x.isFinite = true) :
    ¬ (infinity false).le x = true := by
  intro hle
  have hlt := (rank_lt_infinity hx).2
  have hrank := rank_le_of_le hle
  omega

/-- **The least of several is finite** if one of them is and none is below all numbers. -/
theorem isFinite_foldl_min_iff (times : List Binary64) :
    (times.foldl min (infinity false)).isFinite = true ↔
      (∃ t ∈ times, t.isFinite = true) ∧ infinity true ∉ times := by
  constructor
  · intro hleast
    refine ⟨?_, fun hbottom => ?_⟩
    · rcases foldl_min_mem times (infinity false) with heq | hmem
      · rw [heq] at hleast
        exact absurd hleast (by decide)
      · exact ⟨_, hmem, hleast⟩
    · exact not_le_infinity_true hleast (foldl_min_le rfl hbottom rfl)
  · rintro ⟨⟨t, ht, hfinite⟩, hbottom⟩
    have hle : (times.foldl min (infinity false)).le t = true :=
      foldl_min_le rfl ht (isNaN_of_isFinite hfinite)
    -- The least is below a finite number, so it is not above all; and it is one of the numbers, so
    -- it is not below all.
    rcases finite_or_infinity (isNaN_of_le hle).1 with hleast | heq | heq
    · exact hleast
    · rcases foldl_min_mem times (infinity false) with hinit | hmem
      · rw [hinit] at heq
        exact absurd heq (by decide)
      · exact absurd (heq ▸ hmem) hbottom
    · rw [heq] at hle
      exact absurd hle (not_infinity_false_le hfinite)

/-- **The greatest of several is finite** if one of them is and none is above all numbers. -/
theorem isFinite_foldl_max_iff (times : List Binary64) :
    (times.foldl max (infinity true)).isFinite = true ↔
      (∃ t ∈ times, t.isFinite = true) ∧ infinity false ∉ times := by
  constructor
  · intro hgreatest
    refine ⟨?_, fun htop => ?_⟩
    · rcases foldl_max_mem times (infinity true) with heq | hmem
      · rw [heq] at hgreatest
        exact absurd hgreatest (by decide)
      · exact ⟨_, hmem, hgreatest⟩
    · exact not_infinity_false_le hgreatest (le_foldl_max rfl htop rfl)
  · rintro ⟨⟨t, ht, hfinite⟩, htop⟩
    have hle : t.le (times.foldl max (infinity true)) = true :=
      le_foldl_max rfl ht (isNaN_of_isFinite hfinite)
    rcases finite_or_infinity (isNaN_of_le hle).2 with hgreatest | heq | heq
    · exact hgreatest
    · rw [heq] at hle
      exact absurd hle (not_le_infinity_true hfinite)
    · rcases foldl_max_mem times (infinity true) with hinit | hmem
      · rw [hinit] at heq
        exact absurd heq (by decide)
      · exact absurd (heq ▸ hmem) htop

/-! ## Arithmetic that gives numbers

Rounding never gives a `nan`; a sum or a difference of numbers is only one where two infinities
cancel. -/

theorem isNaN_nearest (negative : Bool) (n d : Nat) : (nearest negative n d).isNaN = false := by
  rw [isNaN_eq_false_iff]
  exact Nat.min_le_right _ _

/-- A finite number may be added to any number. -/
theorem isNaN_add {x y : Binary64} (hx : x.isFinite = true) (hy : y.isNaN = false) :
    (x.add y).isNaN = false := by
  have hxn := isNaN_of_isFinite hx
  have hxi := isInfinite_of_isFinite hx
  -- The one sum that is no number is that of two infinities, and `x` is none.
  rw [add, hxn, hxi, hy]
  simp only [Bool.or_self, Bool.false_eq_true, if_false]
  split
  · exact hy
  · split
    · rfl
    · exact isNaN_nearest _ _ _

/-- Any number may be subtracted from a finite one. -/
theorem isNaN_sub {x y : Binary64} (hx : x.isFinite = true) (hy : y.isNaN = false) :
    (x - y).isNaN = false :=
  isNaN_add hx hy

end Seismic.Binary64
