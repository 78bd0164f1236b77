import Seismic.Table

/-!
# Tables — looking up what has been put into a table

A table keeps its keys in increasing order, and as long as they are, a key that is changed has the
new value afterwards and every other key has its old one.

* **`Table.sorted_alter`**: the order is kept;
* **`Table.find?_alter`**: every look-up after a change;
* **`Table.find?_foldl_insert`**: every look-up after many, of which the last counts;
* **`Table.mem_entries_iff`**, **`Table.eq_of_find?_eq`**: what is looked up is all there is to a
  table.
-/

namespace Seismic.Table

variable {κ ν ν' : Type} [LT κ]

/-- The keys increase. -/
def Sorted (t : Table κ ν) : Prop := t.entries.Pairwise fun a b => a.1 < b.1

theorem sorted_empty : Sorted ({} : Table κ ν) := List.Pairwise.nil

/-- A key before the first is not there. -/
theorem find?_eq_none_of_lt [DecidableEq κ] [Trans (α := κ) (· < ·) (· < ·) (· < ·)]
    [Std.Irrefl (α := κ) (· < ·)] {key : κ} {first : κ × ν} {rest : List (κ × ν)}
    (h : (first :: rest).Pairwise fun a b => a.1 < b.1) (hkey : key < first.1) :
    (first :: rest).find? (fun e => e.1 = key) = none := by
  rw [List.find?_eq_none]
  intro entry hentry heq
  have hlater : key < entry.1 := by
    rcases List.mem_cons.mp hentry with rfl | hentry
    · exact hkey
    · exact Trans.trans hkey ((List.pairwise_cons.mp h).1 entry hentry)
  rw [of_decide_eq_true heq] at hlater
  exact Std.Irrefl.irrefl _ hlater

/-! ## Changes -/

section Change

variable [DecidableLT κ] {key : κ} {f : Option ν → ν} {entries : List (κ × ν)}

theorem alterEntries_ne_nil (key : κ) (f : Option ν → ν) (entries : List (κ × ν)) :
    alterEntries key f entries ≠ [] := by
  cases entries with
  | nil => exact List.cons_ne_nil _ _
  | cons entry rest =>
    unfold alterEntries
    split
    · exact List.cons_ne_nil _ _
    · split
      · exact List.cons_ne_nil _ _
      · exact List.cons_ne_nil _ _

/-- A change adds no key but its own. -/
theorem mem_alterEntries {entry : κ × ν} (h : entry ∈ alterEntries key f entries) :
    entry.1 = key ∨ entry ∈ entries := by
  induction entries with
  | nil =>
    rw [List.mem_singleton.mp h]
    exact .inl rfl
  | cons first rest ih =>
    obtain ⟨k, v⟩ := first
    unfold alterEntries at h
    split at h
    · rcases List.mem_cons.mp h with rfl | h
      · exact .inl rfl
      · exact .inr h
    split at h
    · rcases List.mem_cons.mp h with rfl | h
      · exact .inr List.mem_cons_self
      · exact (ih h).imp_right (List.mem_cons_of_mem _)
    · rcases List.mem_cons.mp h with rfl | h
      · exact .inl rfl
      · exact .inr (List.mem_cons_of_mem _ h)

variable [Std.Trichotomous (α := κ) (· < ·)] [Trans (α := κ) (· < ·) (· < ·) (· < ·)]

theorem pairwise_alterEntries (h : entries.Pairwise fun a b => a.1 < b.1) :
    (alterEntries key f entries).Pairwise fun a b => a.1 < b.1 := by
  induction entries with
  | nil => exact List.pairwise_singleton _ _
  | cons first rest ih =>
    obtain ⟨k, v⟩ := first
    obtain ⟨hfirst, hrest⟩ := List.pairwise_cons.mp h
    -- The key goes before the first entry, further back, or in its place. In the second case the
    -- entries behind the first are still greater than it, since only the key is new among them.
    unfold alterEntries
    split
    · next hbefore =>
      refine List.pairwise_cons.mpr ⟨fun entry hentry => ?_, h⟩
      rcases List.mem_cons.mp hentry with rfl | hentry
      · exact hbefore
      · exact Trans.trans hbefore (hfirst entry hentry)
    split
    · next hafter =>
      refine List.pairwise_cons.mpr ⟨fun entry hentry => ?_, ih hrest⟩
      rcases mem_alterEntries hentry with hkey | hentry
      · rw [hkey]
        exact hafter
      · exact hfirst entry hentry
    · next hbefore hafter =>
      rw [Std.Trichotomous.trichotomous key k hbefore hafter]
      exact List.pairwise_cons.mpr ⟨hfirst, hrest⟩

theorem sorted_alter {t : Table κ ν} (h : t.Sorted) : (t.alter key f).Sorted :=
  pairwise_alterEntries h

theorem sorted_insert {t : Table κ ν} (h : t.Sorted) (value : ν) : (t.insert key value).Sorted :=
  sorted_alter h

theorem sorted_foldl_insert (entries : List (κ × ν)) {t : Table κ ν} (h : t.Sorted) :
    (entries.foldl (fun t e => t.insert e.1 e.2) t).Sorted := by
  induction entries generalizing t with
  | nil => exact h
  | cons entry rest ih => exact ih (sorted_insert h entry.2)

theorem sorted_ofList (entries : List (κ × ν)) : (ofList entries).Sorted :=
  sorted_foldl_insert entries sorted_empty

/-! ## Look-ups -/

variable [DecidableEq κ] [Std.Irrefl (α := κ) (· < ·)]

theorem find?_alterEntries (h : entries.Pairwise fun a b => a.1 < b.1) (k : κ) :
    ((alterEntries key f entries).find? fun e => e.1 = k).map (·.2) =
      if k = key then some (f ((entries.find? fun e => e.1 = key).map (·.2)))
      else (entries.find? fun e => e.1 = k).map (·.2) := by
  induction entries with
  | nil =>
    by_cases hk : k = key
    · simp [alterEntries, hk]
    · simp [alterEntries, hk, Ne.symm hk]
  | cons first rest ih =>
    obtain ⟨first, v⟩ := first
    -- The same three places. Before the first entry the key was absent, as the keys increase.
    unfold alterEntries
    split
    · next hbefore =>
      have hnone := find?_eq_none_of_lt h hbefore
      by_cases hk : k = key
      · simp [hk, hnone]
      · simp [hk, Ne.symm hk]
    split
    · next hafter =>
      have hne : first ≠ key := fun heq => Std.Irrefl.irrefl _ (heq ▸ hafter)
      have hrest := ih (List.pairwise_cons.mp h).2
      by_cases hk : first = k
      · simp [hk, hk ▸ hne]
      · simp [hk, hne, hrest]
    · next hbefore hafter =>
      have heq : key = first := Std.Trichotomous.trichotomous key first hbefore hafter
      by_cases hk : k = key
      · simp [hk, heq]
      · simp [hk, Ne.symm hk, ← heq]

/-- **Every look-up after a change.** -/
theorem find?_alter {t : Table κ ν} (h : t.Sorted) (k : κ) :
    (t.alter key f).find? k = if k = key then some (f (t.find? key)) else t.find? k :=
  find?_alterEntries h k

theorem find?_insert {t : Table κ ν} (h : t.Sorted) (value : ν) (k : κ) :
    (t.insert key value).find? k = if k = key then some value else t.find? k :=
  find?_alter h k

/-! ## Many changes -/

/-- **The last value given to a key stays**, and a key that is given none keeps what it had. -/
theorem find?_foldl_insert (entries : List (κ × ν)) {t : Table κ ν} (h : t.Sorted) (k : κ) :
    (entries.foldl (fun t e => t.insert e.1 e.2) t).find? k =
      ((entries.filter fun e => e.1 = k).getLast?.map (·.2)).or (t.find? k) := by
  induction entries generalizing t with
  | nil => rfl
  | cons entry rest ih =>
    rw [List.foldl_cons, ih (sorted_insert h entry.2), find?_insert h]
    -- The first entry counts for its key only if none behind it has the key.
    by_cases hk : entry.1 = k
    · simp only [List.filter_cons, hk, decide_true, if_true, List.getLast?_cons]
      cases (rest.filter fun e => e.1 = k).getLast? with
      | none => rfl
      | some last => rfl
    · simp only [List.filter_cons, hk, Ne.symm hk, decide_false, Bool.false_eq_true, if_false]

theorem find?_ofList (entries : List (κ × ν)) (k : κ) :
    (ofList entries).find? k = (entries.filter fun e => e.1 = k).getLast?.map (·.2) := by
  rw [ofList, find?_foldl_insert entries sorted_empty]
  exact Option.or_none

end Change

/-! ## Entries -/

section Entries

variable [DecidableEq κ] [Std.Irrefl (α := κ) (· < ·)]

/-- **The entries of a table are what is looked up in it.** -/
theorem mem_entries_iff {t : Table κ ν} (h : t.Sorted) {k : κ} {v : ν} :
    (k, v) ∈ t.entries ↔ t.find? k = some v := by
  rcases t with ⟨entries⟩
  unfold Sorted at h
  unfold find?
  dsimp only at h ⊢
  induction entries with
  | nil => simp
  | cons first rest ih =>
    obtain ⟨hfirst, hrest⟩ := List.pairwise_cons.mp h
    by_cases hk : first.1 = k
    · -- No entry behind it has the key, since their keys are greater.
      have hbehind : (k, v) ∉ rest := fun hmem =>
        Std.Irrefl.irrefl (r := (· < ·)) k (hk ▸ hfirst (k, v) hmem)
      simp only [List.mem_cons, hbehind, or_false, List.find?_cons_of_pos, hk, decide_true,
        Option.map_some, Option.some.injEq]
      exact ⟨fun heq => congrArg Prod.snd heq.symm, fun heq => Prod.ext hk.symm heq.symm⟩
    · have hne : (k, v) ≠ first := fun heq => hk (congrArg Prod.fst heq).symm
      rw [List.mem_cons, List.find?_cons_of_neg (by simpa using hk), ih hrest]
      exact or_iff_right hne

/-- **Tables with the same look-ups are the same.** -/
theorem eq_of_find?_eq [Trans (α := κ) (· < ·) (· < ·) (· < ·)] {t t' : Table κ ν} (h : t.Sorted)
    (h' : t'.Sorted) (hfind : ∀ k, t.find? k = t'.find? k) : t = t' := by
  have hmem (entry : κ × ν) : entry ∈ t.entries ↔ entry ∈ t'.entries := by
    rw [mem_entries_iff h, mem_entries_iff h', hfind]
  have hirrefl (x y : κ × ν) (hlt : x.1 < y.1) : x ≠ y := fun heq =>
    Std.Irrefl.irrefl (r := (· < ·)) y.1 (heq ▸ hlt)
  have hperm : t.entries.Perm t'.entries :=
    (List.perm_ext_iff_of_nodup (h.imp (hirrefl _ _)) (h'.imp (hirrefl _ _))).mpr hmem
  have hasymm (x y : κ × ν) (hxy : x.1 < y.1) (hyx : y.1 < x.1) : x = y :=
    absurd (show x.1 < x.1 from Trans.trans hxy hyx) (Std.Irrefl.irrefl x.1)
  have heq : t.entries = t'.entries := hperm.eq_of_pairwise (fun x y _ _ => hasymm x y) h h'
  rcases t with ⟨entries⟩
  exact congrArg Table.mk heq

/-- **Giving the same values once more** changes nothing. -/
theorem foldl_insert_twice [DecidableLT κ] [Std.Trichotomous (α := κ) (· < ·)]
    [Trans (α := κ) (· < ·) (· < ·) (· < ·)] (entries : List (κ × ν)) {t : Table κ ν}
    (h : t.Sorted) :
    entries.foldl (fun t e => t.insert e.1 e.2) (entries.foldl (fun t e => t.insert e.1 e.2) t) =
      entries.foldl (fun t e => t.insert e.1 e.2) t := by
  have hsorted := sorted_foldl_insert entries h
  refine eq_of_find?_eq (sorted_foldl_insert entries hsorted) hsorted fun k => ?_
  rw [find?_foldl_insert entries hsorted, find?_foldl_insert entries h, ← Option.or_assoc,
    Option.or_self]

end Entries

/-! ## Other values under the same keys -/

/-- The table with `f` of each value. -/
def map (f : ν → ν') (t : Table κ ν) : Table κ ν' := ⟨t.entries.map fun e => (e.1, f e.2)⟩

theorem sorted_map {t : Table κ ν} (h : t.Sorted) (f : ν → ν') : (t.map f).Sorted :=
  List.pairwise_map.mpr h

omit [LT κ] in
theorem find?_map [DecidableEq κ] (t : Table κ ν) (f : ν → ν') (k : κ) :
    (t.map f).find? k = (t.find? k).map f := by
  unfold find? map
  rw [List.find?_map, Option.map_map, Option.map_map]
  rfl

omit [LT κ] in
/-- Rows that are made of keys and of `f` of the values are the same where these are. -/
theorem map_entries_eq {ρ : Type} {f : ν → ν'} {t t' : Table κ ν} {row : κ × ν → ρ}
    (hrow : ∀ k v v', f v = f v' → row (k, v) = row (k, v')) (h : t.map f = t'.map f) :
    t.entries.map row = t'.entries.map row := by
  refine List.ext_getElem? fun i => ?_
  have hentry := congrArg (fun t => t.entries[i]?) h
  simp only [map, List.getElem?_map] at hentry ⊢
  cases hi : t.entries[i]? with
  | none =>
    rw [hi, Option.map_none, eq_comm, Option.map_eq_none_iff] at hentry
    rw [hentry]
  | some entry =>
    rw [hi, Option.map_some, eq_comm, Option.map_eq_some_iff] at hentry
    obtain ⟨entry', hi', heq⟩ := hentry
    obtain ⟨k, v⟩ := entry
    obtain ⟨k', v'⟩ := entry'
    obtain ⟨rfl, hvalue⟩ := Prod.mk.inj heq
    rw [hi', Option.map_some, Option.map_some, hrow k' v v' hvalue.symm]

end Seismic.Table
