import Seismic.Proofs.Median
import Seismic.Proofs.Replies
import Seismic.Proofs.Representable
import Seismic.Proofs.Written

/-!
# Ages — the median age of a status against exact arithmetic

A status computes the age of the data of each channel and gives the median of the ages that count.
Everything is read against exact values: of numbers that stay as they are, only differences, sums
and halves are rounded.

* **`Binary64.toRat_le_iff`**, **`toRat_min`**: comparing numbers compares exact values;
* **`Status.map_toRat_ages`**: ages whose differences are exact are the exact ages of the channels
  with samples, without those that the threshold leaves out;
* **`Status.exists_median`**: the median is computed from the middle of the exact values;
* **`Status.reports`**: what this makes of the lines of a status, in whichever order the channels
  are listed.
-/

namespace Seismic

/-! ## Exact values -/

namespace Binary64

variable {x y : Binary64}

theorem toRat_eq_div (x : Binary64) : x.toRat = x.units / unitsPerOne :=
  Rat.mkRat_eq_div x.units unitsPerOne

theorem unitsPerOne_pos_rat : (0 : ℚ) < unitsPerOne := by exact_mod_cast unitsPerOne_pos

theorem toRat_le_of_units_le (h : x.units ≤ y.units) : x.toRat ≤ y.toRat := by
  rw [toRat_eq_div, toRat_eq_div, div_le_div_iff_of_pos_right unitsPerOne_pos_rat]
  exact_mod_cast h

theorem toRat_lt_of_units_lt (h : x.units < y.units) : x.toRat < y.toRat := by
  rw [toRat_eq_div, toRat_eq_div, div_lt_div_iff_of_pos_right unitsPerOne_pos_rat]
  exact_mod_cast h

/-- Sorting puts exact values in order. -/
theorem toRat_le_of_totalLe (h : x.totalLe y = true) : x.toRat ≤ y.toRat :=
  toRat_le_of_units_le (units_mono (rank_le_of_totalLe h))

/-- **Comparing numbers compares exact values.** -/
theorem toRat_le_iff (hx : x.isNaN = false) (hy : y.isNaN = false) :
    x.toRat ≤ y.toRat ↔ x.le y = true := by
  rw [le_iff_rank hx hy]
  constructor
  · intro hle
    by_contra hlt
    have hgreater := toRat_lt_of_units_lt (units_lt_units hy hx (Int.not_le.mp hlt))
    exact absurd hle (not_le.mpr hgreater)
  · intro hle
    exact toRat_le_of_units_le (units_mono hle)

theorem toRat_lt_iff (hx : x.isNaN = false) (hy : y.isNaN = false) :
    x.toRat < y.toRat ↔ x.lt y = true := by
  rw [lt_iff_rank hx hy, ← not_le, toRat_le_iff hy hx, le_iff_rank hy hx, Int.not_le]

theorem toRat_min (hx : x.isNaN = false) (hy : y.isNaN = false) :
    (x.min y).toRat = Min.min x.toRat y.toRat := by
  unfold min
  rw [hy, Bool.false_or]
  by_cases hlt : x.lt y = true
  · have hless : x.toRat < y.toRat := (toRat_lt_iff hx hy).mpr hlt
    rw [if_pos hlt, min_eq_left hless.le]
  · have hle : y.toRat ≤ x.toRat := by
      rw [← not_lt, toRat_lt_iff hx hy]
      exact hlt
    rw [if_neg hlt, min_eq_right hle]

theorem toRat_zero : (0 : Binary64).toRat = 0 := by decide +kernel

/-- A difference is a number, and the exact one. -/
structure Differ (x y : Binary64) : Prop where
  isFinite : (x - y).isFinite = true
  toRat : (x - y).toRat = x.toRat - y.toRat

end Binary64

namespace Status

open Binary64 (toRat isNaN_of_isFinite)

/-! ## Exact ages -/

variable {policy : Policy} {now threshold : Time} {channels channels' : List Listing}

/-- The newest time that may be shown of data that end at `stop`, exactly. -/
def exactLatest (policy : Policy) (now stop : Time) : ℚ :=
  if 0 < policy.embargo.toRat then min stop.toRat (now.toRat - policy.embargo.toRat)
  else stop.toRat

/-- The exact ages of the channels with samples. If the threshold is positive only those below it
are kept. -/
def exactAges (policy : Policy) (now threshold : Time) (channels : List Listing) : List ℚ :=
  ((channels.filterMap (·.coverage)).map fun span =>
    now.toRat - exactLatest policy now span.stop).filter fun age =>
      threshold.toRat ≤ 0 ∨ age < threshold.toRat

/-- All times are finite, and their differences are exact. -/
structure Exact (policy : Policy) (now threshold : Time) (channels : List Listing) : Prop where
  finiteNow : now.isFinite = true
  finiteThreshold : threshold.isFinite = true
  finiteEmbargo : policy.embargo.isFinite = true
  finiteStops : ∀ span ∈ channels.filterMap (·.coverage), span.stop.isFinite = true
  edge : 0 < policy.embargo.toRat → now.Differ policy.embargo
  ages : ∀ span ∈ channels.filterMap (·.coverage), now.Differ (policy.clampLatest now span.stop)

theorem toRat_clampLatest {stop : Time} (hembargo : policy.embargo.isFinite = true)
    (hedge : 0 < policy.embargo.toRat → now.Differ policy.embargo) (hstop : stop.isFinite = true) :
    (policy.clampLatest now stop).toRat = exactLatest policy now stop := by
  have hwithheld : 0 < policy.embargo.toRat ↔ (0 : Time).lt policy.embargo = true := by
    rw [← Binary64.toRat_lt_iff (by decide +kernel) (isNaN_of_isFinite hembargo),
      Binary64.toRat_zero]
  -- There is an edge only if something is withheld, and then it is exact.
  unfold Policy.clampLatest Policy.embargoEdge? exactLatest
  by_cases hpositive : (0 : Time).lt policy.embargo = true
  · have hexact := hedge (hwithheld.mpr hpositive)
    rw [if_pos hpositive, if_pos (hwithheld.mpr hpositive), ← hexact.toRat]
    exact Binary64.toRat_min (isNaN_of_isFinite hstop) (isNaN_of_isFinite hexact.isFinite)
  · rw [if_neg hpositive, if_neg (mt hwithheld.mp hpositive)]

/-- **Which ages count**, read in exact values. -/
theorem counts_iff {age : Time} (hthreshold : threshold.isFinite = true)
    (hage : age.isFinite = true) :
    counts threshold age = true ↔ threshold.toRat ≤ 0 ∨ age.toRat < threshold.toRat := by
  have hzero := Binary64.toRat_le_iff (x := threshold) (y := 0)
    (isNaN_of_isFinite hthreshold) (by decide +kernel)
  have hbelow := Binary64.toRat_lt_iff (isNaN_of_isFinite hage) (isNaN_of_isFinite hthreshold)
  rw [Binary64.toRat_zero] at hzero
  unfold counts
  rw [Bool.or_eq_true, hzero, hbelow]

/-- What is kept of some values and then mapped is what is kept of their images. -/
theorem map_filter_map {α β γ : Type} {list : List γ} {value : γ → α} {image : γ → β} {f : α → β}
    {p : α → Bool} {q : β → Bool} (hf : ∀ x ∈ list, f (value x) = image x)
    (hp : ∀ x ∈ list, p (value x) = q (image x)) :
    ((list.map value).filter p).map f = (list.map image).filter q := by
  induction list with
  | nil => rfl
  | cons x rest ih =>
    have hrest := ih (fun y hy => hf y (List.mem_cons_of_mem x hy))
      fun y hy => hp y (List.mem_cons_of_mem x hy)
    have hx := hf x List.mem_cons_self
    rw [List.map_cons, List.map_cons, List.filter_cons, List.filter_cons,
      hp x List.mem_cons_self]
    split
    · rw [List.map_cons, hx, hrest]
    · exact hrest

/-- **The ages are the exact ages** if no difference is rounded. -/
theorem map_toRat_ages (h : Exact policy now threshold channels) :
    (ages policy now threshold channels).map toRat = exactAges policy now threshold channels := by
  have hage : ∀ span ∈ channels.filterMap (·.coverage),
      (now - policy.clampLatest now span.stop).toRat =
        now.toRat - exactLatest policy now span.stop := by
    intro span hspan
    have hlatest := toRat_clampLatest h.finiteEmbargo h.edge (h.finiteStops span hspan)
    rw [(h.ages span hspan).toRat, hlatest]
  refine map_filter_map hage fun span hspan => ?_
  rw [Bool.eq_iff_iff, counts_iff h.finiteThreshold (h.ages span hspan).isFinite,
    hage span hspan, decide_eq_true_eq]

/-! ## The median -/

/-- How the median of some numbers is made from the middle of their exact values. -/
structure ReportedMedian (values : List Time) (m : Time) (middle : ℚ) : Prop where
  isMedian : IsMedian (values.map toRat) middle
  /-- The middle one of an odd number of values is reported as it is. -/
  odd : values.length % 2 = 1 → m ∈ values ∧ m.toRat = middle
  /-- Of the middle two only the sum and its half may be rounded. -/
  even : values.length % 2 = 0 → ∃ a ∈ values, ∃ b ∈ values, m = (a + b) / 2 ∧
    middle = (a.toRat + b.toRat) / 2

/-- If sums and halves are exact so is the median. -/
theorem ReportedMedian.toRat_eq {values : List Time} {m : Time} {middle : ℚ} (h : ReportedMedian values m middle)
    (hhalves : ∀ a ∈ values, ∀ b ∈ values, ((a + b) / 2).toRat = (a.toRat + b.toRat) / 2) :
    m.toRat = middle := by
  rcases Nat.mod_two_eq_zero_or_one values.length with heven | hodd
  · obtain ⟨a, ha, b, hb, rfl, rfl⟩ := h.even heven
    exact hhalves a ha b hb
  · exact (h.odd hodd).2

theorem sorted_map_toRat (values : List Time) :
    sorted (values.map toRat) = (sorted values).map toRat := by
  refine sorted_map Binary64.ordered ordered_rat (fun a b hle => ?_) values
  rw [totalLe_rat_iff]
  exact Binary64.toRat_le_of_totalLe hle

/-- **There is a median of some numbers**, made from the middle of their exact values. -/
theorem exists_median {values : List Time} (hne : values ≠ []) :
    ∃ m middle, median values = some m ∧ ReportedMedian values m middle := by
  -- What is picked from the sorted numbers stands in the same place of the sorted exact values.
  have hexact {k : ℕ} {v : Time} (hv : (sorted values)[k]? = some v) :
      IsRanked (values.map toRat) k v.toRat := by
    refine isRanked_of_sorted ?_
    rw [sorted_map_toRat, List.getElem?_map, hv]
    rfl
  have hmem {k : ℕ} {v : Time} (hv : (sorted values)[k]? = some v) : v ∈ values :=
    (sorted_perm values).mem_iff.mp (List.mem_of_getElem? hv)
  have hlength : (values.map toRat).length = values.length := List.length_map _
  rcases Nat.mod_two_eq_zero_or_one values.length with heven | hodd
  · obtain ⟨a, b, ha, hb, hmedian⟩ := median_of_even hne heven
    rw [Binary64.scalar_ofNat] at hmedian
    refine ⟨_, (a.toRat + b.toRat) / 2, hmedian, ?_, fun hodd => by omega, fun _ => ?_⟩
    · have hbelow := hexact ha
      have habove := hexact hb
      rw [← hlength] at hbelow habove heven
      exact isMedian_of_even (mt List.map_eq_nil_iff.mp hne) heven hbelow habove
    · exact ⟨a, hmem ha, b, hmem hb, rfl, rfl⟩
  · obtain ⟨m, hm, hmedian⟩ := median_of_odd hodd
    refine ⟨m, m.toRat, hmedian, ?_, fun _ => ⟨hmem hm, rfl⟩, fun heven => by omega⟩
    have hmiddle := hexact hm
    rw [← hlength] at hmiddle hodd
    exact isMedian_of_odd hodd hmiddle

/-! ## The lines of a status -/

theorem fixed_ne_notAvailable (x : Binary64) : x.fixed ≠ "n/a" := by
  intro h
  have hslash : '/' ∈ x.fixed.toList := by
    rw [h]
    decide
  exact absurd (Binary64.inNumbers_of_mem_fixed hslash) (by decide)

theorem ages_perm (hperm : channels'.Perm channels) :
    (ages policy now threshold channels').Perm (ages policy now threshold channels) :=
  ((hperm.filterMap _).map _).filter _

/-- **The lines do not depend on the order of the channels.** -/
theorem lines_eq_of_perm (s : Server) (threshold : Time) (hperm : channels'.Perm channels) :
    lines s threshold channels' = lines s threshold channels := by
  unfold lines
  rw [median_eq_of_perm Binary64.ordered (ages_perm hperm), hperm.length_eq]

theorem getElem?_lines (s : Server) (threshold : Time) (channels : List Listing) :
    (lines s threshold channels)[3]? = some ("medianDataAge: " ++
      ((median (ages s.policy s.clock.now threshold channels)).map Binary64.fixed).getD "n/a") :=
  rfl

/-- What a status says of the ages in a listing. -/
structure Reports (s : Server) (threshold : Time) (channels : List Listing)
    (values : List Time) : Prop where
  /-- The ages are those of the channels with samples that the threshold keeps. -/
  unrounded : Exact s.policy s.clock.now threshold channels →
    values.map toRat = exactAges s.policy s.clock.now threshold channels
  noneIff : (lines s threshold channels)[3]? = some "medianDataAge: n/a" ↔ values = []
  /-- The number in the line is the median, exactly so if sums and halves of ages are exact. -/
  median : values ≠ [] → ∃ m middle,
    (lines s threshold channels)[3]? = some ("medianDataAge: " ++ m.fixed) ∧
      ReportedMedian values m middle ∧
        ((∀ a ∈ values, ∀ b ∈ values, ((a + b) / 2).toRat = (a.toRat + b.toRat) / 2) →
          m.toRat = middle)
  reordered : ∀ channels' : List Listing, channels'.Perm channels →
    lines s threshold channels' = lines s threshold channels

theorem reports (s : Server) (threshold : Time) (channels : List Listing) :
    Reports s threshold channels (ages s.policy s.clock.now threshold channels) where
  unrounded := map_toRat_ages
  noneIff := by
    rw [getElem?_lines, Option.some.injEq, ← median_eq_none_iff]
    cases hmedian : Status.median (ages s.policy s.clock.now threshold channels) with
    | none => exact iff_of_true rfl rfl
    | some m =>
      -- No number is written with a slash.
      refine iff_of_false (fun hline => ?_) (Option.some_ne_none m)
      have hsame : "medianDataAge: ".toList ++ m.fixed.toList =
          "medianDataAge: ".toList ++ "n/a".toList := by
        rw [← String.toList_append]
        exact congrArg String.toList hline
      have htext : m.fixed.toList = "n/a".toList := List.append_cancel_left hsame
      exact fixed_ne_notAvailable m (String.toList_inj.mp htext)
  median := by
    intro hne
    obtain ⟨m, middle, hmedian, hmiddle⟩ := exists_median hne
    refine ⟨m, middle, ?_, hmiddle, hmiddle.toRat_eq⟩
    rw [getElem?_lines, hmedian]
    rfl
  reordered := fun _ => lines_eq_of_perm s threshold

/-- **A status reports the true median age.** Computed without rounding, it is the median of any
values; computed as it is, it is made from the middle of the ages. -/
theorem reports_median_age :
    (∀ values : List ℚ, (median values = none ↔ values = []) ∧
      ∀ m, median values = some m ↔ IsMedian values m) ∧
    (∀ (s : Server) (threshold : Time) (channels : List Listing),
      Reports s threshold channels (ages s.policy s.clock.now threshold channels)) ∧
    (∀ (s : Server) (id : String) (threshold : Time), s.access = .ok () →
      ((reply id threshold).on s).1 = .ok (.block id (lines s threshold (s.seen .brief)))) ∧
    ∀ (s t : Server) (id : String) (threshold : Time), s.access = .ok () → t.access = .ok () →
      t.policy = s.policy → t.clock = s.clock → t.counters.active = s.counters.active →
        (t.seen .brief).Perm (s.seen .brief) →
          ((reply id threshold).on t).1 = ((reply id threshold).on s).1 := by
  refine ⟨fun values => ⟨median_eq_none_iff, fun m => median_eq_some_iff⟩, reports,
    fun s id threshold h => Request.result_status h id threshold, ?_⟩
  intro s t id threshold hs ht hpolicy hclock hactive hperm
  have hlines : lines t threshold (t.seen .brief) = lines s threshold (t.seen .brief) := by
    unfold lines
    rw [hpolicy, hclock, hactive]
  rw [Request.result_status hs, Request.result_status ht, hlines,
    lines_eq_of_perm s threshold hperm]

/-- At 1000 seconds the last ten are withheld. -/
def tenWithheld : Server where
  policy := { embargo := 10 }
  clock := ⟨⟨946729000, 0⟩, 0⟩

/-- Channels whose samples end 100, 5 and 900 seconds before that, and one without samples. -/
def fourChannels : List Listing :=
  [⟨1, { address := ⟨"A", "EHZ", "AV", none⟩ }, some ⟨0, 900⟩⟩,
    ⟨2, { address := ⟨"B", "EHZ", "AV", none⟩ }, some ⟨0, 995⟩⟩,
    ⟨3, { address := ⟨"C", "EHZ", "AV", none⟩ }, none⟩,
    ⟨4, { address := ⟨"D", "EHZ", "AV", none⟩ }, some ⟨0, 100⟩⟩]

theorem exact_fourChannels : Exact tenWithheld.policy tenWithheld.clock.now 500 fourChannels where
  finiteNow := by decide +kernel
  finiteThreshold := by decide +kernel
  finiteEmbargo := by decide +kernel
  finiteStops := by decide +kernel
  edge := fun _ => ⟨by decide +kernel, by decide +kernel⟩
  ages := by
    have hall : ∀ span ∈ fourChannels.filterMap (·.coverage),
        (tenWithheld.clock.now - tenWithheld.policy.clampLatest tenWithheld.clock.now
            span.stop).isFinite = true ∧
          (tenWithheld.clock.now - tenWithheld.policy.clampLatest tenWithheld.clock.now
            span.stop).toRat = tenWithheld.clock.now.toRat -
              (tenWithheld.policy.clampLatest tenWithheld.clock.now span.stop).toRat := by
      decide +kernel
    exact fun span hspan => ⟨(hall span hspan).1, (hall span hspan).2⟩

/-- Two of the channels count, and the median of their ages is 55 seconds. -/
theorem reports_median_age_fourChannels :
    (ages tenWithheld.policy tenWithheld.clock.now 500 fourChannels).map toRat = [100, 10] ∧
      exactAges tenWithheld.policy tenWithheld.clock.now 500 fourChannels = [100, 10] ∧
      lines tenWithheld 500 fourChannels.reverse = lines tenWithheld 500 fourChannels ∧
      (lines tenWithheld 500 fourChannels)[3]? = some "medianDataAge: 55" ∧
      (∃ m : Time, (lines tenWithheld 500 fourChannels)[3]? =
          some ("medianDataAge: " ++ m.fixed) ∧
        IsMedian [100, 10] m.toRat) ∧
      ((reply "7" 500).on tenWithheld).1 =
        .ok (.block "7" (lines tenWithheld 500 (tenWithheld.seen .brief))) := by
  have hreports := reports_median_age.2.1 tenWithheld 500 fourChannels
  have hexact : exactAges tenWithheld.policy tenWithheld.clock.now 500 fourChannels = [100, 10] := by
    decide +kernel
  have hages := hreports.unrounded exact_fourChannels
  rw [hexact] at hages
  have hne : ages tenWithheld.policy tenWithheld.clock.now 500 fourChannels ≠ [] := by
    decide +kernel
  have hsorted : sorted (ages tenWithheld.policy tenWithheld.clock.now 500 fourChannels) =
      [10, 100] := by
    rw [show ages tenWithheld.policy tenWithheld.clock.now 500 fourChannels = [100, 10] by
      decide +kernel]
    exact (eq_sorted Binary64.ordered (.swap 100 10 []) (by decide +kernel)).symm
  refine ⟨hages, hexact, hreports.reordered _ (List.reverse_perm _), ?_, ?_, ?_⟩
  · rw [getElem?_lines, median, hsorted]
    decide +kernel
  · obtain ⟨m, middle, hline, hmedian, heq⟩ := hreports.median hne
    have hmiddle := hmedian.isMedian
    rw [hages, ← heq (by decide +kernel)] at hmiddle
    exact ⟨m, hline, hmiddle⟩
  · exact reports_median_age.2.2.1 tenWithheld "7" 500 rfl

end Status

end Seismic
