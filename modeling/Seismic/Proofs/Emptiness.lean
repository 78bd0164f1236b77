import Seismic.Proofs.Asked
import Seismic.Proofs.Overlay
import Seismic.Proofs.Slicing
import Seismic.Proofs.Tables

/-!
# Emptiness — when a window holds a reading

Waves and products are made on different ways: a wave is laid over a grid, a product gathered in
buckets of one length or another. Each of them decides on its own that there is nothing to send.

* **`Bucket.gather_eq_nil_iff`**: buckets of any length are there exactly if there is a reading;
* **`Recording.hasReading_of_wave`**: a wave has no reading that the pieces do not have;
* **`OneVerdict`** is what all verbs for data come to together, and **`data_verbs_agree`** says that
  they come to that on every server.
-/

namespace Seismic

/-! ## Readings -/

/-- Some sample of the pieces is not missing. -/
def HasReading (pieces : List (Segment Time)) : Prop :=
  ∃ piece ∈ pieces, ∃ n ∈ piece.samples, n ≠ noData

/-- A segment has no readings if all of its samples are missing. -/
theorem Segment.readings_eq_nil_iff {s : Segment Time} :
    s.readings = [] ↔ ∀ n ∈ s.samples, n = noData := by
  rw [List.eq_nil_iff_forall_not_mem]
  constructor
  · intro h n hn
    obtain ⟨i, hi⟩ := List.getElem?_of_mem hn
    by_contra hreading
    exact h (s.sampleTime i, n) (mem_readings_iff.mpr ⟨i, hi, hreading, rfl⟩)
  · rintro h ⟨t, n⟩ hmem
    obtain ⟨i, hi, hreading, -⟩ := mem_readings_iff.mp hmem
    exact hreading (h n (List.mem_of_getElem? hi))

theorem hasReading_iff {pieces : List (Segment Time)} :
    HasReading pieces ↔ pieces.flatMap Segment.readings ≠ [] := by
  unfold HasReading
  rw [ne_eq, List.flatMap_eq_nil_iff]
  simp only [Segment.readings_eq_nil_iff, not_forall, exists_prop]

/-! ## Buckets -/

/-- **Buckets are there exactly if there is a reading**, however long they are. -/
theorem Bucket.gather_eq_nil_iff (interval : Time) (pieces : List (Segment Time)) :
    (gather interval pieces).entries = [] ↔ ¬ HasReading pieces := by
  rw [hasReading_iff, not_not]
  unfold gather
  rcases List.eq_nil_or_concat (pieces.flatMap Segment.readings) with hnone | ⟨rest, last, hlast⟩
  · rw [hnone]
    exact iff_of_true rfl rfl
  · -- The last reading leaves a bucket, whatever was there before it.
    rw [hlast, List.concat_eq_append, List.foldl_append]
    refine iff_of_false (Table.alterEntries_ne_nil _ _ _) ?_
    simp

/-! ## Waves -/

namespace Recording

/-- **A wave has no reading that the pieces do not have.** -/
theorem hasReading_of_wave {r : Recording} {window : Span Time} {cap : Nat} {wave : Segment Time}
    (h : r.wave window cap = some wave) (hdata : wave.hasData = true) :
    HasReading (r.clipped window) := by
  obtain ⟨n, hn, hne⟩ := List.any_eq_true.mp hdata
  have hreading : n ≠ noData := of_decide_eq_true hne
  obtain ⟨k, hk⟩ := List.getElem?_of_mem hn
  have hslot : k < wave.length := (List.getElem?_eq_some_iff.mp hk).1
  have hlast := (laid_of_wave h).samples k hslot
  rw [hk, Option.some.injEq] at hlast
  cases hpiece : lastAt? wave.start wave.rate (fitting (r.clipped window) wave.rate) k with
  | none =>
    -- Where no piece has a sample, one is missing.
    rw [hpiece] at hlast
    exact absurd hlast hreading
  | some m =>
    rw [hpiece, Option.getD_some] at hlast
    obtain ⟨piece, hmem, hn⟩ := mem_of_lastAt? hpiece
    exact ⟨piece, List.mem_of_mem_filter hmem, m, hn, hlast ▸ hreading⟩

end Recording

/-! ## Products -/

/-- Rows made of buckets are a product exactly if there is a reading. -/
theorem rows_cases {β : Type} {interval : Time} {row : Int × Bucket Time → β}
    {pieces : List (Segment Time)} {product : Option (List β)}
    (h : product =
      let rows := (Bucket.gather interval pieces).entries.map row
      if rows.isEmpty then none else some rows) :
    (¬ HasReading pieces ∧ product = none) ∨
      HasReading pieces ∧ ∃ rows, rows ≠ [] ∧ product = some rows := by
  have hentries := Bucket.gather_eq_nil_iff interval pieces
  by_cases hreading : HasReading pieces
  · have hne : (Bucket.gather interval pieces).entries.map row ≠ [] := by
      rw [ne_eq, List.map_eq_nil_iff, hentries]
      exact not_not.mpr hreading
    refine .inr ⟨hreading, _, hne, ?_⟩
    rw [h, if_neg (mt List.isEmpty_iff.mp hne)]
  · refine .inl ⟨hreading, ?_⟩
    rw [h, hentries.mpr hreading]
    rfl

namespace Archive

variable {a : Archive} {sid : Nat} {w : Span Time}

/-- A strip chart is there exactly if there is a reading, -/
theorem helicorder_cases (a : Archive) (sid : Nat) (w : Span Time) (coarse : Bool) :
    (¬ HasReading ((a.recording sid).clipped w) ∧ Archive.helicorder sid w coarse a = none) ∨
      HasReading ((a.recording sid).clipped w) ∧
        ∃ rows, rows ≠ [] ∧ Archive.helicorder sid w coarse a = some rows :=
  rows_cases rfl

/-- and so is an amplitude series, whatever its period is. -/
theorem rsam_cases (a : Archive) (sid : Nat) (w : Span Time) (period : Option Nat) :
    (¬ HasReading ((a.recording sid).clipped w) ∧ Archive.rsam sid w period a = none) ∨
      HasReading ((a.recording sid).clipped w) ∧
        ∃ rows, rows ≠ [] ∧ Archive.rsam sid w period a = some rows :=
  rows_cases rfl

/-- Where there is no reading no wave is found. -/
theorem foundWave_eq_none (h : ¬ HasReading ((a.recording sid).clipped w)) :
    Data.foundWave a sid w = none := by
  unfold Data.foundWave
  rw [Option.filter_eq_none_iff]
  intro wave hwave hdata
  exact h (Recording.hasReading_of_wave hwave hdata)

end Archive

/-! ## One verdict -/

/-- **What all requests for the data of a target come to**, with any lines that ask for it. If the
server does not let requests through to its archive, they all halt for that reason. Otherwise they
are all answered. If the channel is not there or its window cannot be served, they all get that
failure. If the window can be served and holds no reading, they all get a gap. If it holds one,
there are rows for every helicorder and every amplitude series, and only a wave may be a gap. -/
inductive OneVerdict (s : Server) (t : Target) : Prop where
  | halted (halt : Halt) (access : s.access = .error halt)
      (all : ∀ ask line, Asked t ask line → (s.answer line).1 = .ofResult (.error halt))
  | failed (access : s.access = .ok ()) (found : Data.Located) (f : Failure)
      (located : Data.located s t.data = found) (window : found.window = .error f)
      (all : ∀ ask line, Asked t ask line →
        (s.answer line).1 = .reply (Data.failure t.data ask.framing found.sid f))
  | empty (access : s.access = .ok ()) (sid : Nat) (w : Span Time)
      (located : Data.located s t.data = ⟨sid, .ok w⟩)
      (missing : ¬ HasReading ((s.archive.recording sid).clipped w))
      (all : ∀ ask line, Asked t ask line →
        (s.answer line).1 = .reply (Data.failure t.data ask.framing sid .gap))
  | filled (access : s.access = .ok ()) (sid : Nat) (w : Span Time)
      (located : Data.located s t.data = ⟨sid, .ok w⟩)
      (reading : HasReading ((s.archive.recording sid).clipped w))
      (helicorder : ∀ compressed line, Asked t (.helicorder compressed) line → ∃ rows, rows ≠ [] ∧
        (s.answer line).1 = .reply (.binary t.id ⟨Layout.helicorder rows, compressed⟩))
      (rsam : ∀ token period, ∀ h : Numeral.intWithin? (-Nat.pow 2 63) (Nat.pow 2 63 - 1) token =
        some period, ∀ compressed line, Asked t (.rsam h compressed) line → ∃ rows, rows ≠ [] ∧
        (s.answer line).1 = .reply (.binary t.id ⟨Layout.rsam rows, compressed⟩))
      (waves : ∀ ask line, ask.isWave = true → Asked t ask line →
        (s.answer line).1 = .reply (Data.failure t.data ask.framing sid .gap) ∨
          ∃ r, ask.product? t.data s.archive sid w = some r ∧ (s.answer line).1 = .reply r)

section Verdicts

variable {s : Server} {t : Target} {sid : Nat} {w : Span Time}

theorem Ask.product?_of_missing (h : ¬ HasReading ((s.archive.recording sid).clipped w))
    (data : DataRequest) (ask : Ask) : ask.product? data s.archive sid w = none := by
  cases ask with
  | samples withLocation fill => exact product?_of_not_found (Archive.foundWave_eq_none h) rfl
  | wave withHeader compressed => exact product?_of_not_found (Archive.foundWave_eq_none h) rfl
  | helicorder compressed =>
    rcases Archive.helicorder_cases s.archive sid w (Data.coarseAfter.lt w.duration) with
      ⟨_, hnone⟩ | ⟨hreading, _⟩
    · rw [product?, Data.foundHelicorder, hnone, Option.map_none]
    · exact absurd hreading h
  | @rsam _ period _ compressed =>
    rcases Archive.rsam_cases s.archive sid w (Rsam.period? period) with
      ⟨_, hnone⟩ | ⟨hreading, _⟩
    · rw [product?, hnone, Option.map_none]
    · exact absurd hreading h

/-- With a reading in the window there are rows, however they are asked for. -/
theorem oneVerdict_of_reading (haccess : s.access = .ok ())
    (hlocated : Data.located s t.data = ⟨sid, .ok w⟩)
    (hreading : HasReading ((s.archive.recording sid).clipped w)) : OneVerdict s t := by
  refine .filled haccess sid w hlocated hreading ?helicorder ?rsam ?waves
  case helicorder =>
    intro compressed line h
    rcases Archive.helicorder_cases s.archive sid w (Data.coarseAfter.lt w.duration) with
      ⟨hmissing, _⟩ | ⟨_, rows, hne, hrows⟩
    · exact absurd hreading hmissing
    · refine ⟨rows, hne, h.answer_of_product haccess hlocated ?_⟩
      rw [Ask.product?, Data.foundHelicorder, hrows, Option.map_some]
      rfl
  case rsam =>
    intro token period hperiod compressed line h
    rcases Archive.rsam_cases s.archive sid w (Rsam.period? period) with
      ⟨hmissing, _⟩ | ⟨_, rows, hne, hrows⟩
    · exact absurd hreading hmissing
    · refine ⟨rows, hne, h.answer_of_product haccess hlocated ?_⟩
      rw [Ask.product?, hrows, Option.map_some]
      rfl
  case waves =>
    intro ask line _ h
    cases hproduct : ask.product? t.data s.archive sid w with
    | none => exact .inl (h.answer_of_gap haccess hlocated hproduct)
    | some r => exact .inr ⟨r, rfl, h.answer_of_product haccess hlocated hproduct⟩

/-- **All verbs for data agree.** They ask the same server for access and locate the same channel and
window, so what they come to is decided before any of them looks for its product. -/
theorem data_verbs_agree (s : Server) (t : Target) : OneVerdict s t := by
  cases haccess : s.access with
  | error halt => exact .halted halt haccess fun ask line h => h.answer_of_halt haccess
  | ok _ =>
    rcases hlocated : Data.located s t.data with ⟨sid, f | w⟩
    · exact .failed haccess ⟨sid, .error f⟩ f hlocated rfl fun ask line h =>
        h.answer_of_unresolved haccess hlocated
    · by_cases hreading : HasReading ((s.archive.recording sid).clipped w)
      · exact oneVerdict_of_reading haccess hlocated hreading
      · refine .empty haccess sid w hlocated hreading fun ask line h => ?_
        exact h.answer_of_gap haccess hlocated (Ask.product?_of_missing hreading t.data ask)

end Verdicts

end Seismic
