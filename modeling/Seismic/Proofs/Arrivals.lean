import Mathlib.Data.List.Pairwise
import Seismic.Proofs.Consistency

/-!
# Arrivals — segments that are stored in another order

Segments of one channel come in the order of their starts, whenever they are stored. So unless two of
them start at the same time, it does not matter which one is stored first; and segments of different
channels have nothing to do with each other.

* **`Recording.insert_comm`**, **`Holding.put_comm`**: two segments change places;
* **`Register.given_comm`**, **`Archive.given_comm`**: so do two calls;
* **`foldl_eq_of_perm`**: from two calls to any number of them;
* **`stored_in_any_order`**: the same calls in any order leave the same register, and the same
  archive.
-/

namespace Seismic

/-! ## One recording -/

namespace Recording

variable {s s' : Segment Time}

/-- Numbers that are in order both ways are the same, to the sign of a zero. -/
theorem eq_of_totalLe {x y : Binary64} (hxy : x.totalLe y = true) (hyx : y.totalLe x = true) :
    x = y := by
  have hrank : x.totalRank = y.totalRank :=
    Int.le_antisymm (of_decide_eq_true hxy) (of_decide_eq_true hyx)
  rcases x with ⟨xnegative, xcode, hx⟩
  rcases y with ⟨ynegative, ycode, hy⟩
  unfold Binary64.totalRank at hrank
  -- The sign is that of the rank, so only numbers of one sign can have the same.
  cases xnegative <;> cases ynegative <;>
    simp only [Bool.false_eq_true, if_true, if_false] at hrank
  · obtain rfl : xcode = ycode := by omega
    rfl
  · omega
  · omega
  · obtain rfl : xcode = ycode := by omega
    rfl

/-- Of two segments with different starts one starts later. -/
theorem totalLe_eq_false_or (h : s.start ≠ s'.start) :
    s'.start.totalLe s.start = false ∨ s.start.totalLe s'.start = false := by
  cases hle : s'.start.totalLe s.start with
  | false => exact .inl rfl
  | true =>
    refine .inr (Bool.eq_false_iff.mpr fun hge => h ?_)
    exact eq_of_totalLe hge hle

theorem insert_comm_of_later (h : s'.start.totalLe s.start = false) (r : Recording) :
    (r.insert s).insert s' = (r.insert s').insert s := by
  have hbefore := totalLe_of_not_totalLe h
  -- By induction on the recording: the two go apart at the first segment that starts between them,
  -- or stand next to each other.
  induction r with
  | nil => simp [insert, hbefore, h]
  | cons x rest ih =>
    cases hs : x.start.totalLe s.start with
    | true =>
      have hs' := totalLe_trans hs hbefore
      simp [insert, hs, hs', ih]
    | false =>
      cases hs' : x.start.totalLe s'.start with
      | true => simp [insert, hs, hs', hbefore]
      | false => simp [insert, hs, hs', hbefore, h]

/-- **Two segments with different starts may be inserted in either order.** -/
theorem insert_comm (h : s.start ≠ s'.start) (r : Recording) :
    (r.insert s).insert s' = (r.insert s').insert s := by
  rcases totalLe_eq_false_or h with hlater | hlater
  · exact insert_comm_of_later hlater r
  · exact (insert_comm_of_later hlater r).symm

/-- So they may be sorted in in either order. -/
theorem sortedByStart_comm (h : s.start ≠ s'.start) (r : Recording) :
    sortedByStart (sortedByStart (r ++ [s]) ++ [s']) =
      sortedByStart (sortedByStart (r ++ [s']) ++ [s]) := by
  refine eq_of_filter_startsAt (sorted_sortedByStart _) (sorted_sortedByStart _) fun t => ?_
  simp only [filter_sortedByStart, List.filter_append, List.append_assoc]
  congr 1
  -- At one start there is at most one of the two.
  cases hs : startsAt t s with
  | false => simp [List.filter_cons, hs]
  | true =>
    have hs' : startsAt t s' = false := by
      refine Bool.eq_false_iff.mpr fun hs' => h ?_
      obtain ⟨hle, hge⟩ := Bool.and_eq_true_iff.mp hs
      obtain ⟨hle', hge'⟩ := Bool.and_eq_true_iff.mp hs'
      exact eq_of_totalLe (totalLe_trans hle hge') (totalLe_trans hle' hge)
    simp [List.filter_cons, hs']

end Recording

theorem Holding.put_comm {s s' : Segment Time} (h : s.start ≠ s'.start) (held : Holding) :
    (held.put s).put s' = (held.put s').put s := by
  have hput (held : Holding) (s : Segment Time) :
      held.put s = Holding.refreshed { held with
        waves := Recording.sortedByStart (held.waves ++ [s]) } := rfl
  simp only [hput, Holding.refreshed, Recording.sortedByStart_comm h]

/-! ## Many calls -/

/-- **Steps may be taken in any order if each two of them may be**, in every state that they lead
to. -/
theorem foldl_eq_of_perm {σ α : Type} {step : σ → α → σ} {P : σ → Prop} {xs ys : List α}
    (hperm : xs.Perm ys) (hstep : ∀ s x, P s → P (step s x))
    (hcomm : ∀ x ∈ xs, ∀ y ∈ xs, ∀ s, P s → step (step s x) y = step (step s y) x) {s : σ}
    (hs : P s) : xs.foldl step s = ys.foldl step s := by
  -- By induction on the permutation, which swaps two steps at a time.
  induction hperm generalizing s with
  | nil => rfl
  | cons x _ ih =>
    exact ih (fun y hy z hz => hcomm y (List.mem_cons_of_mem x hy) z (List.mem_cons_of_mem x hz))
      (hstep s x hs)
  | swap x y rest =>
    have hswap := hcomm y List.mem_cons_self x (List.mem_cons_of_mem y List.mem_cons_self) s hs
    exact congrArg (rest.foldl step) hswap
  | trans hfirst _ ih ih' =>
    rw [ih hcomm hs]
    exact ih' (fun y hy z hz => hcomm y (hfirst.mem_iff.mpr hy) z (hfirst.mem_iff.mpr hz)) hs

/-- Storing a segment for the channel with an id. -/
def Change.put (p : Int32 × Segment Time) : Change := .putWave p.1 p.2

/-- Two segments for different channels, or with different starts. -/
def Apart (p q : Int32 × Segment Time) : Prop := p.1 = q.1 → p.2.start ≠ q.2.start

instance (p q : Int32 × Segment Time) : Decidable (Apart p q) :=
  inferInstanceAs (Decidable (_ → _))

instance : Std.Symm Apart := ⟨fun _ _ h hsid => (h hsid.symm).symm⟩

/-! ## Registers -/

namespace Register

variable {r : Register} {p q : Int32 × Segment Time}

/-- The register with a segment stored, if there is a channel for it. -/
def given (r : Register) (p : Int32 × Segment Time) : Register := (r.putWave p.1 p.2).2

/-- A segment changes what is held under its id, and nothing else. -/
theorem find?_given (h : r.channels.Sorted) (p : Int32 × Segment Time) (sid : Int32) :
    (r.given p).channels.find? sid =
      if sid = p.1 then (r.channels.find? sid).map (·.put p.2) else r.channels.find? sid := by
  unfold given
  cases hheld : r.channels.find? p.1 with
  | none =>
    rw [putWave_of_unknown hheld]
    by_cases hsid : sid = p.1
    · rw [if_pos hsid, hsid, hheld, Option.map_none]
    · rw [if_neg hsid]
  | some held =>
    rw [putWave_of_held hheld, withHeld, Table.find?_insert h]
    by_cases hsid : sid = p.1
    · rw [if_pos hsid, if_pos hsid, hsid, hheld, Option.map_some]
    · rw [if_neg hsid, if_neg hsid]

/-- Nothing but the channels changes, and they stay in order. -/
theorem given_eq (r : Register) (p : Int32 × Segment Time) :
    r.given p = { r with channels := (r.given p).channels } := by
  unfold given putWave
  cases r.channels.find? p.1 with
  | none => rfl
  | some held => rfl

theorem sorted_given (h : r.channels.Sorted) (p : Int32 × Segment Time) :
    (r.given p).channels.Sorted := by
  unfold given putWave
  cases r.channels.find? p.1 with
  | none => exact h
  | some held => exact Table.sorted_alter h

/-- **Two calls.** -/
theorem given_comm (h : r.channels.Sorted) (hapart : Apart p q) :
    (r.given p).given q = (r.given q).given p := by
  have hchannels : ((r.given p).given q).channels = ((r.given q).given p).channels := by
    refine Table.eq_of_find?_eq (sorted_given (sorted_given h p) q)
      (sorted_given (sorted_given h q) p) fun sid => ?_
    rw [find?_given (sorted_given h p), find?_given h, find?_given (sorted_given h q),
      find?_given h]
    by_cases hp : sid = p.1
    · by_cases hq : sid = q.1
      · have hstart := hapart (hp.symm.trans hq)
        simp only [if_pos hp, if_pos hq, Option.map_map]
        congr 1
        funext held
        exact Holding.put_comm hstart held
      · simp only [if_pos hp, if_neg hq]
    · simp only [if_neg hp]
  rw [given_eq (r.given p), given_eq (r.given q), hchannels, given_eq r p, given_eq r q]

theorem run_put {puts : List (Int32 × Segment Time)} (h : r.channels.Sorted)
    (hknown : ∀ p ∈ puts, (r.channels.find? p.1).isSome) :
    r.run (puts.map Change.put) = (List.replicate puts.length .done, puts.foldl given r) := by
  induction puts generalizing r with
  | nil => rfl
  | cons p rest ih =>
    obtain ⟨held, hheld⟩ := Option.isSome_iff_exists.mp (hknown p List.mem_cons_self)
    have hperform : r.perform (.put p) = (.done, r.given p) := by
      unfold given
      simp only [Change.put, perform, putWave_of_held hheld]
      rfl
    have hrest : ∀ q ∈ rest, ((r.given p).channels.find? q.1).isSome := by
      intro q hq
      have hq' := hknown q (List.mem_cons_of_mem p hq)
      rw [find?_given h]
      split
      · rw [Option.isSome_map]
        exact hq'
      · exact hq'
    simp only [List.map_cons, run, hperform, ih (sorted_given h p) hrest]
    rfl

end Register

/-! ## Archives -/

namespace Archive

variable {a : Archive} {p q : Int32 × Segment Time}

/-- The archive with a segment stored, if there is a channel for it. -/
def given (a : Archive) (p : Int32 × Segment Time) : Archive := (a.perform (.put p)).2

theorem given_cases (a : Archive) (p : Int32 × Segment Time) :
    (∃ i c, a.channels[i]? = some c ∧ p.1.toInt = (i + 1 : Nat) ∧
      a.perform (.put p) = (.done, a.modified i (StoredChannel.given p.2))) ∨
    (a.stored? p.1.toInt = none ∧ a.given p = a) := by
  rcases a.store_cases p.1.toInt p.2 with ⟨i, c, hc, hsid, hstore⟩ | ⟨hnone, hstore⟩
  · refine .inl ⟨i, c, hc, hsid, ?_⟩
    simp only [Change.put, perform, hstore]
  · refine .inr ⟨hnone, ?_⟩
    simp only [given, Change.put, perform, hstore]

theorem stored?_given (a : Archive) (p : Int32 × Segment Time) (sid : Int) :
    (a.given p).stored? sid =
      if sid = p.1.toInt then (a.stored? sid).map (StoredChannel.given p.2)
      else a.stored? sid := by
  rcases a.given_cases p with ⟨i, c, hc, hsid, hperform⟩ | ⟨hnone, hgiven⟩
  · rw [given, hperform, stored?_modified, hsid]
  · rw [hgiven]
    by_cases heq : sid = p.1.toInt
    · rw [if_pos heq, heq, hnone, Option.map_none]
    · rw [if_neg heq]

theorem given_eq (a : Archive) (p : Int32 × Segment Time) :
    a.given p = { a with channels := (a.given p).channels } := by
  rcases a.given_cases p with ⟨i, c, hc, hsid, hperform⟩ | ⟨-, hgiven⟩
  · rw [given, hperform]
    rfl
  · rw [hgiven]

/-- **Two calls.** -/
theorem given_comm (a : Archive) (hapart : Apart p q) :
    (a.given p).given q = (a.given q).given p := by
  have hchannels : ((a.given p).given q).channels = ((a.given q).given p).channels := by
    refine List.ext_getElem? fun i => ?_
    simp only [← stored?_succ, stored?_given]
    by_cases hp : ((i + 1 : Nat) : Int) = p.1.toInt
    · by_cases hq : ((i + 1 : Nat) : Int) = q.1.toInt
      · have hstart := hapart (Int32.toInt_inj.mp (hp.symm.trans hq))
        simp only [if_pos hp, if_pos hq, Option.map_map]
        congr 1
        funext c
        exact congrArg (StoredChannel.mk c.channel) (Recording.insert_comm hstart c.recording)
      · simp only [if_pos hp, if_neg hq]
    · simp only [if_neg hp]
  rw [given_eq (a.given p), given_eq (a.given q), hchannels, given_eq a p, given_eq a q]

theorem run_put {puts : List (Int32 × Segment Time)}
    (hknown : ∀ p ∈ puts, (a.stored? p.1.toInt).isSome) :
    a.run (puts.map Change.put) = (List.replicate puts.length .done, puts.foldl given a) := by
  induction puts generalizing a with
  | nil => rfl
  | cons p rest ih =>
    have hperform : a.perform (.put p) = (.done, a.given p) := by
      have hp := hknown p List.mem_cons_self
      rcases a.given_cases p with ⟨i, c, hc, hsid, hperform⟩ | ⟨hnone, -⟩
      · rw [given, hperform]
      · rw [hnone] at hp
        cases hp
    have hrest : ∀ q ∈ rest, ((a.given p).stored? q.1.toInt).isSome := by
      intro q hq
      have hq' := hknown q (List.mem_cons_of_mem p hq)
      rw [stored?_given]
      split
      · rw [Option.isSome_map]
        exact hq'
      · exact hq'
    simp only [List.map_cons, run, hperform, ih hrest]
    rfl

end Archive

/-- **The order in which segments arrive does not matter**, as long as those of one channel start at
different times: all calls succeed in any order, and what is left is the same register and the same
archive. -/
theorem stored_in_any_order {puts puts' : List (Int32 × Segment Time)}
    (hapart : puts.Pairwise Apart) (hperm : puts.Perm puts') :
    (∀ r : Register, r.channels.Sorted → (∀ p ∈ puts, (r.channels.find? p.1).isSome) →
      (r.run (puts.map Change.put)).1 = List.replicate puts.length .done ∧
        r.run (puts'.map Change.put) = r.run (puts.map Change.put)) ∧
    ∀ a : Archive, (∀ p ∈ puts, (a.stored? p.1.toInt).isSome) →
      (a.run (puts.map Change.put)).1 = List.replicate puts.length .done ∧
        a.run (puts'.map Change.put) = a.run (puts.map Change.put) := by
  -- A segment need not be apart from itself, since there is nothing to swap.
  have hcomm {p q : Int32 × Segment Time} (hp : p ∈ puts) (hq : q ∈ puts) :
      p = q ∨ Apart p q := by
    by_cases heq : p = q
    · exact .inl heq
    · exact .inr (hapart.forall hp hq heq)
  refine ⟨fun r hsorted hknown => ?_, fun a hknown => ?_⟩
  · have hfold : puts.foldl Register.given r = puts'.foldl Register.given r := by
      refine foldl_eq_of_perm (P := fun r => r.channels.Sorted) hperm
        (fun _ p h => Register.sorted_given h p) (fun p hp q hq r hr => ?_) hsorted
      rcases hcomm hp hq with rfl | hpq
      · rfl
      · exact Register.given_comm hr hpq
    have hknown' : ∀ p ∈ puts', (r.channels.find? p.1).isSome := fun p hp =>
      hknown p (hperm.mem_iff.mpr hp)
    rw [Register.run_put hsorted hknown, Register.run_put hsorted hknown', hfold, hperm.length_eq]
    exact ⟨rfl, rfl⟩
  · have hfold : puts.foldl Archive.given a = puts'.foldl Archive.given a := by
      refine foldl_eq_of_perm (P := fun _ => True) hperm
        (fun _ _ _ => trivial) (fun p hp q hq a _ => ?_) trivial
      rcases hcomm hp hq with rfl | hpq
      · rfl
      · exact a.given_comm hpq
    have hknown' : ∀ p ∈ puts', (a.stored? p.1.toInt).isSome := fun p hp =>
      hknown p (hperm.mem_iff.mpr hp)
    rw [Archive.run_put hknown, Archive.run_put hknown', hfold, hperm.length_eq]
    exact ⟨rfl, rfl⟩

/-- Two channels are registered, and three segments wait to be stored. -/
def twoChannels : List Change :=
  [.addChannel ⟨"AKV", "EHZ", "AV", none⟩, .addChannel ⟨"AKV", "EHN", "AV", none⟩]

def waiting : List (Int32 × Segment Time) :=
  [(1, ⟨10, 1, [1]⟩), (2, ⟨10, 1, [2]⟩), (1, ⟨5, 1, [3]⟩)]

theorem waiting_in_any_order :
    (Register.run {} twoChannels).2.run (waiting.reverse.map Change.put) =
        (Register.run {} twoChannels).2.run (waiting.map Change.put) ∧
      (Archive.run {} twoChannels).2.run (waiting.reverse.map Change.put) =
        (Archive.run {} twoChannels).2.run (waiting.map Change.put) := by
  have hapart : waiting.Pairwise Apart := by decide +kernel
  have hperm : waiting.Perm waiting.reverse := (List.reverse_perm waiting).symm
  have hsorted : (Register.run {} twoChannels).2.channels.Sorted := by
    unfold Table.Sorted
    decide +kernel
  obtain ⟨hregister, harchive⟩ := stored_in_any_order hapart hperm
  exact ⟨(hregister _ hsorted (by decide +kernel)).2, (harchive _ (by decide +kernel)).2⟩

end Seismic
