import Mathlib.Control.Monad.Basic
import Seismic.Proofs.Binary64Order
import Seismic.Window

/-!
# Resolution — a resolved window is an intersection

`Window.resolve` clamps the start of a request and both ends of a coverage one by one and compares
mixed pairs of the results. Here its answer is read as sets of times instead:

* **`Policy.Shows`** is the set of times of a channel that may be shown: those in its coverage and
  within the policy's limits;
* **`resolved_resolve`**: every answer of `resolve` is justified by how the request lies to that
  set;
* **`resolve_eq_intersection`**: a window is given exactly when the request meets the set, and then
  holds the common times; otherwise the first of the four failures that applies is given;
* **`permits_of_resolve`**: a window that is given never leaves the limits, even where a limit is
  not a number.
-/

namespace Seismic

/-- A time lies in a span. -/
def Span.Holds (s : Span Time) (t : Time) : Prop := s.start.le t ∧ t.le s.stop

/-- Both ends of a span are numbers. -/
structure Span.Proper (s : Span Time) : Prop where
  start : s.start.isNaN = false
  stop : s.stop.isNaN = false

namespace Policy

/-- A time lies within the limits of a policy: it is not before the retention boundary and not after
the embargo edge, whichever of them there are. -/
structure Admits (p : Policy) (now t : Time) : Prop where
  kept : ∀ boundary, p.retentionBoundary? now = some boundary → t.lt boundary = false
  released : ∀ edge, p.embargoEdge? now = some edge → edge.lt t = false

/-- A window lies within the limits of a policy: its ends are in order, and every time it holds is
within them. -/
structure Permits (p : Policy) (now : Time) (w : Span Time) : Prop where
  inOrder : w.start.le w.stop
  admits : ∀ t, w.Holds t → p.Admits now t

/-- A time of a channel may be shown: its coverage holds it and the policy admits it. -/
def Shows (p : Policy) (now : Time) (coverage : Option (Span Time)) (t : Time) : Prop :=
  ∃ span, coverage = some span ∧ span.Holds t ∧ p.Admits now t

end Policy

/-- The least time of a set of times. -/
def IsEarliest (P : Time → Prop) (t : Time) : Prop := P t ∧ ∀ u, P u → t.le u

/-- The greatest time of a set of times. -/
def IsLatest (P : Time → Prop) (t : Time) : Prop := P t ∧ ∀ u, P u → u.le t

/-! ## Clamped times

Clamping raises a time to the boundary or lowers it to the edge. What a clamped time is compared
with decides both comparisons at once. -/

section Clamps

variable {p : Policy} {now t : Time}

theorem isNaN_clampEarliest (ht : t.isNaN = false) : (p.clampEarliest now t).isNaN = false := by
  unfold Policy.clampEarliest
  split
  · exact Binary64.isNaN_max ht _
  · exact ht

theorem clampEarliest_le_iff (ht : t.isNaN = false) (u : Time) :
    (p.clampEarliest now t).le u = true ↔
      t.le u = true ∧
        ∀ boundary, p.retentionBoundary? now = some boundary → u.lt boundary = false := by
  unfold Policy.clampEarliest
  cases p.retentionBoundary? now with
  | none => simp
  | some boundary =>
    rw [Binary64.max_le_iff_not_lt ht]
    simp

theorem le_clampLatest_iff (ht : t.isNaN = false) (u : Time) :
    u.le (p.clampLatest now t) = true ↔
      u.le t = true ∧ ∀ edge, p.embargoEdge? now = some edge → edge.lt u = false := by
  unfold Policy.clampLatest
  cases p.embargoEdge? now with
  | none => simp
  | some edge =>
    rw [Binary64.le_min_iff_not_lt ht]
    simp

end Clamps

/-! ## The part of a coverage that may be shown -/

section Coverage

variable {p : Policy} {now : Time} {span shown : Span Time}

/-- The two clamped ends of a coverage bound exactly the times that may be shown. -/
theorem holds_clamped_iff (hspan : span.Proper) (t : Time) :
    Span.Holds ⟨p.clampEarliest now span.start, p.clampLatest now span.stop⟩ t ↔
      p.Shows now (some span) t := by
  unfold Span.Holds
  rw [clampEarliest_le_iff hspan.start, le_clampLatest_iff hspan.stop]
  constructor
  · rintro ⟨⟨hstart, hkept⟩, hstop, hreleased⟩
    exact ⟨span, rfl, ⟨hstart, hstop⟩, hkept, hreleased⟩
  · rintro ⟨_, ⟨⟩, ⟨hstart, hstop⟩, hkept, hreleased⟩
    exact ⟨⟨hstart, hkept⟩, hstop, hreleased⟩

theorem clampCoverage_eq_some_iff :
    p.clampCoverage now span = some shown ↔
      (p.clampEarliest now span.start).le (p.clampLatest now span.stop) = true ∧
        ⟨p.clampEarliest now span.start, p.clampLatest now span.stop⟩ = shown := by
  simp only [Policy.clampCoverage]
  split
  · next hle => simp [hle]
  · next hle => simp [hle]

/-- The ends of a clamped coverage are numbers in order. -/
theorem clampCoverage_inOrder (h : p.clampCoverage now span = some shown) :
    shown.start.le shown.stop = true := by
  obtain ⟨hle, rfl⟩ := clampCoverage_eq_some_iff.mp h
  simpa only using hle

theorem holds_clampCoverage_iff (hspan : span.Proper)
    (h : p.clampCoverage now span = some shown) (t : Time) :
    shown.Holds t ↔ p.Shows now (some span) t := by
  obtain ⟨-, rfl⟩ := clampCoverage_eq_some_iff.mp h
  exact holds_clamped_iff hspan t

/-- A coverage that is clamped away has no time to show. -/
theorem not_shows_of_clampCoverage (hspan : span.Proper)
    (h : p.clampCoverage now span = none) (t : Time) : ¬ p.Shows now (some span) t := by
  intro hshows
  rw [← holds_clamped_iff hspan] at hshows
  have hle := Binary64.le_trans hshows.1 hshows.2
  simp [Policy.clampCoverage, hle] at h

end Coverage

namespace Span

/-- The start of a span in order is the least time that it holds. -/
theorem isEarliest_start {s : Span Time} (h : s.start.le s.stop = true) :
    IsEarliest s.Holds s.start :=
  ⟨⟨Binary64.le_refl (Binary64.isNaN_of_le h).1, h⟩, fun _ hu => hu.1⟩

/-- The end of a span in order is the greatest time that it holds. -/
theorem isLatest_stop {s : Span Time} (h : s.start.le s.stop = true) :
    IsLatest s.Holds s.stop :=
  ⟨⟨h, Binary64.le_refl (Binary64.isNaN_of_le h).2⟩, fun _ hu => hu.2⟩

variable {a b : Span Time} (ha : a.Proper) (hb : b.Proper)

include ha hb

/-- The later start and the earlier end bound what two spans have in common. -/
theorem holds_meet_iff (t : Time) :
    Holds ⟨a.start.max b.start, a.stop.min b.stop⟩ t ↔ a.Holds t ∧ b.Holds t := by
  unfold Holds
  rw [Binary64.max_le_iff ha.start hb.start, Binary64.le_min_iff ha.stop hb.stop]
  exact and_and_and_comm

/-- They are in order if neither span starts after either of them ends. -/
theorem meet_inOrder (haa : a.start.le a.stop = true) (hab : a.start.le b.stop = true)
    (hba : b.start.le a.stop = true) (hbb : b.start.le b.stop = true) :
    (a.start.max b.start).le (a.stop.min b.stop) = true := by
  rw [Binary64.max_le_iff ha.start hb.start, Binary64.le_min_iff ha.stop hb.stop,
    Binary64.le_min_iff ha.stop hb.stop]
  exact ⟨⟨haa, hab⟩, hba, hbb⟩

end Span

/-! ## Every answer is justified

One constructor for each answer, with how the request lies to the times that may be shown. -/

namespace Window

section Resolution

variable {policy : Policy} {now : Time} {requested : Span Time} {coverage : Option (Span Time)}

/-- Why a request for a window gets the answer it gets. -/
inductive Resolved (policy : Policy) (now : Time) (requested : Span Time)
    (coverage : Option (Span Time)) : Except Failure (Span Time) → Prop where
  | badRange (order : requested.stop.le requested.start) :
      Resolved policy now requested coverage (.error .badRange)
  | gap (order : requested.start.lt requested.stop)
      (nothing : ∀ t, ¬ policy.Shows now coverage t) :
      Resolved policy now requested coverage (.error .gap)
  | tooEarly (earliest : Time) (order : requested.start.lt requested.stop)
      (least : IsEarliest (policy.Shows now coverage) earliest)
      (before : requested.stop.lt earliest) :
      Resolved policy now requested coverage (.error (.tooEarly earliest))
  | tooLate (latest : Time) (order : requested.start.lt requested.stop)
      (greatest : IsLatest (policy.Shows now coverage) latest)
      (after : latest.lt requested.start) :
      Resolved policy now requested coverage (.error (.tooLate latest))
  | window (w : Span Time) (order : requested.start.lt requested.stop)
      (inOrder : w.start.le w.stop)
      (common : ∀ t, w.Holds t ↔ requested.Holds t ∧ policy.Shows now coverage t) :
      Resolved policy now requested coverage (.ok w)

/-- Raising the start of the request to the boundary does not matter beside a coverage that is
itself within the limits: a time of the coverage is at or after the raised start when it is at or
after the start. -/
theorem clampEarliest_le_iff_of_shows (hstart : requested.start.isNaN = false)
    {t : Time} (ht : policy.Shows now coverage t) :
    (policy.clampEarliest now requested.start).le t = true ↔ requested.start.le t = true := by
  obtain ⟨_, _, _, hadmits⟩ := ht
  rw [clampEarliest_le_iff hstart]
  exact ⟨fun h => h.1, fun h => ⟨h, hadmits.kept⟩⟩

/-- **Every answer is justified.** -/
theorem resolved_resolve (policy : Policy) (now : Time) (hrequested : requested.Proper)
    (hcoverage : ∀ span, coverage = some span → span.Proper) :
    Resolved policy now requested coverage (resolve policy now requested coverage) := by
  unfold resolve
  split
  · next hle => exact .badRange hle
  next hle =>
  have horder : requested.start.lt requested.stop = true :=
    (Binary64.le_eq_false_iff hrequested.stop hrequested.start).mp (Bool.not_eq_true _ ▸ hle)
  cases hbind : coverage.bind (policy.clampCoverage now) with
  | none =>
    refine .gap horder fun t ht => ?_
    obtain ⟨span, rfl, _⟩ := id ht
    exact not_shows_of_clampCoverage (hcoverage span rfl) hbind t ht
  | some shown =>
    obtain ⟨span, rfl, hclamp⟩ := Option.bind_eq_some_iff.mp hbind
    have hspan := hcoverage span rfl
    -- What is left of the coverage holds exactly the times that may be shown.
    have hshown := clampCoverage_inOrder hclamp
    have hshows := holds_clampCoverage_iff hspan hclamp
    have hearliest := Span.isEarliest_start hshown
    have hlatest := Span.isLatest_stop hshown
    obtain ⟨hnanStart, hnanStop⟩ := Binary64.isNaN_of_le hshown
    -- Raising the start of the request loses none of these times.
    have hnan : (policy.clampEarliest now requested.start).isNaN = false :=
      isNaN_clampEarliest hrequested.start
    have hraised {t : Time} (ht : policy.Shows now (some span) t) :=
      clampEarliest_le_iff_of_shows hrequested.start ht
    simp only
    split
    · next hbefore =>
      exact .tooEarly _ horder (by simpa only [IsEarliest, hshows] using hearliest) hbefore
    next hbefore =>
    split
    · next hafter =>
      -- It is the raised start that is compared, but the latest time is within the limits.
      refine .tooLate _ horder (by simpa only [IsLatest, hshows] using hlatest) ?_
      rw [← Binary64.le_eq_false_iff hrequested.start hnanStop, ← Bool.not_eq_true,
        ← hraised ((hshows _).mp hlatest.1), Bool.not_eq_true]
      exact Binary64.le_eq_false_of_lt hafter
    next hafter =>
    -- Neither failure: the four clamped ends are in order, and clamping intersects.
    have hreach : shown.start.le requested.stop = true := by
      rw [← Bool.not_eq_false, Binary64.le_eq_false_iff hnanStart hrequested.stop]
      exact hbefore
    have hbegin : (policy.clampEarliest now requested.start).le shown.stop = true := by
      rw [← Bool.not_eq_false, Binary64.le_eq_false_iff hnan hnanStop]
      exact hafter
    -- The raised start could only pass the end of the request by leaving the coverage behind.
    have hfits : (policy.clampEarliest now requested.start).le requested.stop = true := by
      rw [clampEarliest_le_iff hrequested.start]
      obtain ⟨_, _, _, hadmits⟩ := (hshows _).mp hearliest.1
      exact ⟨Binary64.le_of_lt horder,
        fun boundary hb => Binary64.lt_eq_false_of_le hreach (hadmits.kept boundary hb)⟩
    have hproper : Span.Proper ⟨policy.clampEarliest now requested.start, requested.stop⟩ :=
      ⟨hnan, hrequested.stop⟩
    have hproper' : shown.Proper := ⟨hnanStart, hnanStop⟩
    refine .window _ horder ?_ fun t => ?_
    · simpa only using Span.meet_inOrder hproper hproper' hfits hbegin hreach hshown
    · rw [Span.holds_meet_iff hproper hproper', hshows]
      exact and_congr_left fun ht => and_congr_left fun _ => hraised ht

/-! ## Which answer is given

The positions of a request that justify the answers exclude each other, so each of them is given
exactly where it is justified. -/

variable {answer : Except Failure (Span Time)}

/-- A request that ends before the earliest time of a set holds none of its times. -/
theorem not_holds_of_lt_earliest {P : Time → Prop} {earliest t : Time} (h : IsEarliest P earliest)
    (hbefore : requested.stop.lt earliest = true) (ht : P t) : ¬ requested.Holds t := by
  intro hholds
  have hreach := Binary64.le_trans (h.2 t ht) hholds.2
  rw [Binary64.le_eq_false_of_lt hbefore] at hreach
  cases hreach

/-- A request that starts after the latest time of a set holds none of its times. -/
theorem not_holds_of_latest_lt {P : Time → Prop} {latest t : Time} (h : IsLatest P latest)
    (hafter : latest.lt requested.start = true) (ht : P t) : ¬ requested.Holds t := by
  intro hholds
  have hreach := Binary64.le_trans hholds.1 (h.2 t ht)
  rw [Binary64.le_eq_false_of_lt hafter] at hreach
  cases hreach

/-- A request in order cannot end before a set of times and start after it. -/
theorem not_latest_lt_of_lt_earliest {P : Time → Prop} {earliest latest : Time}
    (hearliest : IsEarliest P earliest) (hlatest : IsLatest P latest)
    (order : requested.start.lt requested.stop = true)
    (hbefore : requested.stop.lt earliest = true) : ¬ latest.lt requested.start = true := by
  intro hafter
  have h1 := Binary64.rank_lt_of_lt order
  have h2 := Binary64.rank_lt_of_lt hbefore
  have h3 := Binary64.rank_le_of_le (hlatest.2 earliest hearliest.1)
  have h4 := Binary64.rank_lt_of_lt hafter
  omega

/-- The window that answers a request meets the times that may be shown. -/
theorem exists_common_of_window {w : Span Time} (inOrder : w.start.le w.stop = true)
    (common : ∀ t, w.Holds t ↔ requested.Holds t ∧ policy.Shows now coverage t) :
    ∃ t, requested.Holds t ∧ policy.Shows now coverage t :=
  ⟨w.start, (common _).mp (Span.isEarliest_start inOrder).1⟩

theorem Resolved.window_iff (h : Resolved policy now requested coverage answer) :
    (∃ w, answer = .ok w) ↔
      requested.start.lt requested.stop ∧
        ∃ t, requested.Holds t ∧ policy.Shows now coverage t := by
  constructor
  · rintro ⟨w, rfl⟩
    cases h with
    | window _ order inOrder common => exact ⟨order, exists_common_of_window inOrder common⟩
  · rintro ⟨order', t, hholds, hshows⟩
    -- Whatever justifies a failure leaves no common time.
    cases h with
    | badRange order => simp [Binary64.le_eq_false_of_lt order'] at order
    | gap _ nothing => exact absurd hshows (nothing t)
    | tooEarly _ _ least before =>
      exact absurd hholds (not_holds_of_lt_earliest least before hshows)
    | tooLate _ _ greatest after =>
      exact absurd hholds (not_holds_of_latest_lt greatest after hshows)
    | window w => exact ⟨w, rfl⟩

theorem Resolved.badRange_iff (h : Resolved policy now requested coverage answer) :
    answer = .error .badRange ↔ requested.stop.le requested.start := by
  constructor
  · rintro rfl
    cases h with
    | badRange order => exact order
  · intro hle
    cases h with
    | badRange => rfl
    | gap order | tooEarly _ order | tooLate _ order | window _ order =>
      rw [Binary64.le_eq_false_of_lt order] at hle
      cases hle

theorem Resolved.gap_iff (h : Resolved policy now requested coverage answer) :
    answer = .error .gap ↔
      requested.start.lt requested.stop ∧ ∀ t, ¬ policy.Shows now coverage t := by
  constructor
  · rintro rfl
    cases h with
    | gap order nothing => exact ⟨order, nothing⟩
  · rintro ⟨order', nothing⟩
    cases h with
    | badRange order => simp [Binary64.le_eq_false_of_lt order'] at order
    | gap => rfl
    | tooEarly a _ least => exact absurd least.1 (nothing a)
    | tooLate b _ greatest => exact absurd greatest.1 (nothing b)
    | window w _ inOrder common =>
      obtain ⟨t, _, ht⟩ := exists_common_of_window inOrder common
      exact absurd ht (nothing t)

theorem Resolved.tooEarly_iff (h : Resolved policy now requested coverage answer) :
    (∃ a, answer = .error (.tooEarly a)) ↔
      requested.start.lt requested.stop ∧
        ∃ a, IsEarliest (policy.Shows now coverage) a ∧ requested.stop.lt a := by
  constructor
  · rintro ⟨a, rfl⟩
    cases h with
    | tooEarly _ order least before => exact ⟨order, a, least, before⟩
  · rintro ⟨order', a, least', before'⟩
    cases h with
    | badRange order => simp [Binary64.le_eq_false_of_lt order'] at order
    | gap _ nothing => exact absurd least'.1 (nothing a)
    | tooEarly a => exact ⟨a, rfl⟩
    | tooLate _ _ greatest after =>
      exact absurd after (not_latest_lt_of_lt_earliest least' greatest order' before')
    | window w _ inOrder common =>
      obtain ⟨t, hholds, ht⟩ := exists_common_of_window inOrder common
      exact absurd hholds (not_holds_of_lt_earliest least' before' ht)

theorem Resolved.tooLate_iff (h : Resolved policy now requested coverage answer) :
    (∃ b, answer = .error (.tooLate b)) ↔
      requested.start.lt requested.stop ∧
        ∃ b, IsLatest (policy.Shows now coverage) b ∧ b.lt requested.start := by
  constructor
  · rintro ⟨b, rfl⟩
    cases h with
    | tooLate _ order greatest after => exact ⟨order, b, greatest, after⟩
  · rintro ⟨order', b, greatest', after'⟩
    cases h with
    | badRange order => simp [Binary64.le_eq_false_of_lt order'] at order
    | gap _ nothing => exact absurd greatest'.1 (nothing b)
    | tooEarly _ _ least before =>
      exact absurd after' (not_latest_lt_of_lt_earliest least greatest' order' before)
    | tooLate b => exact ⟨b, rfl⟩
    | window w _ inOrder common =>
      obtain ⟨t, hholds, ht⟩ := exists_common_of_window inOrder common
      exact absurd hholds (not_holds_of_latest_lt greatest' after' ht)

/-- **Resolution is intersection.** A window is given exactly when the request is in order and meets
the times that may be shown, and it holds exactly the times that both have in common. Otherwise the
request is out of order, or there is nothing to show, or it ends before the earliest time that may
be shown, or it starts after the latest; and the failure says which, with that time. -/
theorem resolve_eq_intersection (policy : Policy) (now : Time) (requested : Span Time)
    (coverage : Option (Span Time)) (hrequested : requested.Proper)
    (hcoverage : ∀ span, coverage = some span → span.Proper) :
    ((∃ w, resolve policy now requested coverage = .ok w) ↔
      requested.start.lt requested.stop ∧
        ∃ t, requested.Holds t ∧ policy.Shows now coverage t) ∧
    (∀ w, resolve policy now requested coverage = .ok w →
      w.start.le w.stop ∧
        ∀ t, w.Holds t ↔ requested.Holds t ∧ policy.Shows now coverage t) ∧
    (resolve policy now requested coverage = .error .badRange ↔
      requested.stop.le requested.start) ∧
    (resolve policy now requested coverage = .error .gap ↔
      requested.start.lt requested.stop ∧ ∀ t, ¬ policy.Shows now coverage t) ∧
    ((∃ a, resolve policy now requested coverage = .error (.tooEarly a)) ↔
      requested.start.lt requested.stop ∧
        ∃ a, IsEarliest (policy.Shows now coverage) a ∧ requested.stop.lt a) ∧
    (∀ a, resolve policy now requested coverage = .error (.tooEarly a) →
      IsEarliest (policy.Shows now coverage) a) ∧
    ((∃ b, resolve policy now requested coverage = .error (.tooLate b)) ↔
      requested.start.lt requested.stop ∧
        ∃ b, IsLatest (policy.Shows now coverage) b ∧ b.lt requested.start) ∧
    (∀ b, resolve policy now requested coverage = .error (.tooLate b) →
      IsLatest (policy.Shows now coverage) b) ∧
    resolve policy now requested coverage ≠ .error .noChannel := by
  have h := resolved_resolve policy now hrequested hcoverage
  refine ⟨h.window_iff, fun w hw => ?_, h.badRange_iff, h.gap_iff, h.tooEarly_iff,
    fun a ha => ?_, h.tooLate_iff, fun b hb => ?_, fun hno => ?_⟩
  · rw [hw] at h
    cases h with
    | window _ _ inOrder common => exact ⟨inOrder, common⟩
  · rw [ha] at h
    cases h with
    | tooEarly _ _ least => exact least
  · rw [hb] at h
    cases h with
    | tooLate _ _ greatest => exact greatest
  · rw [hno] at h
    cases h

/-- A request that reaches beyond both limits and lies within the coverage gets the window between
the limits: a day before the present, and an hour before it. -/
theorem resolve_between_limits :
    (⟨750000, 862000⟩ : Span Time).Proper ∧ (⟨700000, 863000⟩ : Span Time).Proper ∧
      (⟨777600, 860400⟩ : Span Time).start.le (⟨777600, 860400⟩ : Span Time).stop ∧
      ∀ t, Span.Holds ⟨777600, 860400⟩ t ↔
        Span.Holds ⟨750000, 862000⟩ t ∧
          Policy.Shows ⟨1, 3600⟩ 864000 (some ⟨700000, 863000⟩) t := by
  have hrequested : (⟨750000, 862000⟩ : Span Time).Proper :=
    ⟨by decide +kernel, by decide +kernel⟩
  have hcoverage : (⟨700000, 863000⟩ : Span Time).Proper :=
    ⟨by decide +kernel, by decide +kernel⟩
  have hexact := resolve_eq_intersection ⟨1, 3600⟩ 864000 ⟨750000, 862000⟩
    (some ⟨700000, 863000⟩) hrequested (fun span h => Option.some.inj h ▸ hcoverage)
  exact ⟨hrequested, hcoverage, hexact.2.1 ⟨777600, 860400⟩ (by decide +kernel)⟩

/-- A window that is given never leaves the limits. -/
theorem permits_of_resolve {w : Span Time} (hrequested : requested.Proper)
    (hcoverage : ∀ span, coverage = some span → span.Proper)
    (h : resolve policy now requested coverage = .ok w) : policy.Permits now w := by
  have hresolved := resolved_resolve policy now hrequested hcoverage
  rw [h] at hresolved
  cases hresolved with
  | window _ _ inOrder common =>
    refine ⟨inOrder, fun t ht => ?_⟩
    obtain ⟨_, _, _, _, hadmits⟩ := (common t).mp ht
    exact hadmits

end Resolution

end Window

end Seismic
