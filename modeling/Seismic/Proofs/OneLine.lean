import Seismic.Proofs.Fields
import Seismic.Proofs.Lines
import Seismic.Request.Command
import Seismic.Text.Escape

/-!
# OneLine — texts without a newline

A client reads replies line by line, so whether a text has a newline in it decides whether a reply
comes apart as it was put together.

* Numbers and escaped texts are on one line, and so is what is put together from texts on one line:
  all of this is `@[simp]`, so that the question for a whole reply comes down to the texts that it
  shows as they are;
* **`Line.oneLine_textOf`**: the text of a request line is on one line, whatever its bytes are;
* **`Command.oneLine_of_mem_tokens`**: so are its tokens.
-/

namespace Seismic

/-- A text has no newline in it. -/
def OneLine (text : String) : Prop := '\n' ∉ text.toList

instance (text : String) : Decidable (OneLine text) :=
  inferInstanceAs (Decidable ('\n' ∉ text.toList))

namespace OneLine

/-! ## Texts put together -/

@[simp]
theorem append {a b : String} : OneLine (a ++ b) ↔ OneLine a ∧ OneLine b := by
  unfold OneLine
  rw [String.toList_append, List.mem_append, not_or]

@[simp]
theorem ofList {text : List Char} : OneLine (String.ofList text) ↔ '\n' ∉ text := by
  unfold OneLine
  rw [String.toList_ofList]

@[simp]
theorem join {texts : List String} :
    OneLine (String.join texts) ↔ ∀ text ∈ texts, OneLine text := by
  unfold OneLine
  rw [String.toList_join, List.mem_flatMap]
  simp only [not_exists, not_and]

theorem not_mem_intercalate {separator : Char} (h : separator ≠ '\n') (pieces : List (List Char)) :
    '\n' ∉ [separator].intercalate pieces ↔ ∀ piece ∈ pieces, '\n' ∉ piece := by
  induction pieces with
  | nil => simp
  | cons piece rest ih =>
    cases rest with
    | nil => simp
    | cons next rest =>
      rw [List.intercalate_cons_cons, List.mem_append, List.mem_append, not_or, not_or, ih,
        List.forall_mem_cons (a := piece), List.mem_singleton]
      exact ⟨fun ⟨⟨hpiece, _⟩, hrest⟩ => ⟨hpiece, hrest⟩,
        fun ⟨hpiece, hrest⟩ => ⟨⟨hpiece, h.symm⟩, hrest⟩⟩

/-- Fields joined by anything but newlines. -/
theorem fields {separator : Char} (h : separator ≠ '\n') {texts : List String} :
    OneLine (Text.join separator texts) ↔ ∀ text ∈ texts, OneLine text := by
  unfold Text.join
  rw [ofList, not_mem_intercalate h, List.forall_mem_map]
  rfl

/-! ## Numbers -/

@[simp]
theorem ofNat (n : Nat) : OneLine (Numeral.ofNat n) :=
  Lacks.ofNat (by decide) n

@[simp]
theorem ofInt (n : Int) : OneLine (Numeral.ofInt n) :=
  Lacks.ofInt (by decide) n

@[simp]
theorem fixed (x : Binary64) : OneLine x.fixed :=
  Lacks.fixed (by decide) x

@[simp]
theorem wireText (t : Time) : OneLine t.wireText :=
  fixed _

/-! ## Records -/

/-- A newline is written as a letter behind a backslash. -/
theorem not_mem_encodeChar (c : Char) : '\n' ∉ Escape.encodeChar c := by
  unfold Escape.encodeChar
  split
  · decide
  · decide
  · decide
  · next hne =>
    rw [List.mem_singleton]
    exact fun h => hne h.symm

/-- **Written texts are on one line**, whatever they hold. -/
@[simp]
theorem escape (text : String) : OneLine (Escape.escape text) := by
  unfold Escape.escape Escape.encode
  rw [ofList, List.mem_flatMap]
  rintro ⟨c, _, hc⟩
  exact not_mem_encodeChar c hc

@[simp]
theorem pair (key value : String) : OneLine (Escape.pair key value) := by
  unfold Escape.pair
  rw [append, append]
  exact ⟨⟨escape key, by decide⟩, escape value⟩

@[simp]
theorem record {texts : List String} :
    OneLine (Escape.record texts) ↔ ∀ text ∈ texts, OneLine text :=
  fields (by decide)

end OneLine

/-! ## Decoded bytes

A newline is one byte, and no sequence of several bytes spells it: sequences that would be longer
than they need to be are ill-formed. The bits read so far make the final number large enough, or the
range of the next byte does. -/

namespace Utf8

/-- A character begun will not become a newline. -/
def Pending.Far (p : Pending) : Prop := 1 ≤ p.bits ∨ 0x90 ≤ p.low ∧ p.high ≤ 0xBF

/-- Neither will one that has not begun. -/
def State.Far : State → Prop
  | .start => True
  | .within p => p.Far

theorem eq_ten_of_ofNat_eq_newline {n : Nat} (h : Char.ofNat n = '\n') : n = 10 := by
  by_cases hvalid : n.isValidChar
  · have hchar : Char.ofNat n = Char.ofNatAux n hvalid := dif_pos hvalid
    have hnat : (Char.ofNatAux n hvalid).toNat = 10 := congrArg Char.toNat (hchar.symm.trans h)
    exact hnat
  · have hzero : Char.ofNat n = Char.ofNat 0 := dif_neg hvalid
    exact absurd (hzero.symm.trans h) (by decide)

/-- No leading byte but its own makes a newline or begins one. -/
theorem lead_far {b : UInt8} (h : b ≠ 10) : some '\n' ∉ (lead b).1 ∧ (lead b).2.Far := by
  unfold lead
  split
  · -- A byte below 128 is its own character.
    refine ⟨fun hmem => h ?_, trivial⟩
    have hchar := Option.some.inj (List.mem_singleton.mp hmem)
    exact UInt8.toNat.inj (eq_ten_of_ofNat_eq_newline hchar.symm)
  split
  · exact ⟨by decide, trivial⟩
  next hC2 =>
  split
  · next hE0 =>
    -- `C0` and `C1` have been ruled out, and with them empty leading bits.
    refine ⟨List.not_mem_nil, .inl ?_⟩
    simp only [UInt8.lt_iff_toNat_lt, UInt8.reduceToNat] at hC2 hE0 ⊢
    omega
  next hE0 =>
  split
  · next hF0 =>
    -- Only `E0` has empty leading bits, and it narrows the next byte; so does `F0` below.
    refine ⟨List.not_mem_nil, ?_⟩
    by_cases hfirst : b = 0xE0
    · rw [hfirst]
      exact .inr (by decide)
    · refine .inl ?_
      simp only [UInt8.lt_iff_toNat_lt, ← UInt8.toNat_inj, UInt8.reduceToNat] at hE0 hF0 hfirst ⊢
      omega
  next hF0 =>
  split
  · next hF5 =>
    refine ⟨List.not_mem_nil, ?_⟩
    by_cases hfirst : b = 0xF0
    · rw [hfirst]
      exact .inr (by decide)
    · refine .inl ?_
      simp only [UInt8.lt_iff_toNat_lt, ← UInt8.toNat_inj, UInt8.reduceToNat] at hF0 hF5 hfirst ⊢
      omega
  · exact ⟨by decide, trivial⟩

/-- A continuation byte keeps the character away from a newline, and so does every byte after it. -/
theorem Pending.Far.next {p : Pending} (hfar : p.Far) {b : UInt8}
    (hrange : (p.low ≤ b && b ≤ p.high) = true) :
    1 ≤ p.bits * 64 + b.toNat % 64 ∧ p.bits * 64 + b.toNat % 64 ≠ 10 := by
  rw [Bool.and_eq_true, decide_eq_true_eq, decide_eq_true_eq] at hrange
  rcases hfar with hbits | hnarrow
  · omega
  · simp only [UInt8.le_iff_toNat_le, UInt8.reduceToNat] at hrange hnarrow
    omega

/-- **No byte of a newline, no newline.** A character that is being read stays away from it all the
way. -/
theorem newline_not_mem_parts {bytes : List UInt8} (h : 10 ∉ bytes) {state : State}
    (hfar : state.Far) : some '\n' ∉ parts state bytes := by
  -- By induction on the bytes. What carries it is that a character begun is far from a newline.
  induction bytes generalizing state with
  | nil => cases state <;> unfold parts <;> decide
  | cons b rest ih =>
    rw [List.mem_cons, not_or] at h
    obtain ⟨hlead, hnext⟩ := lead_far (Ne.symm h.1)
    have hagain := ih h.2 hnext
    cases state with
    | start =>
      unfold parts
      rw [List.mem_append, not_or]
      exact ⟨hlead, hagain⟩
    | within p =>
      unfold parts
      split
      · next hrange =>
        obtain ⟨hpositive, hne⟩ := Pending.Far.next hfar hrange
        simp only
        split
        · rw [List.mem_cons, not_or]
          refine ⟨fun hmem => hne ?_, ih h.2 trivial⟩
          exact eq_ten_of_ofNat_eq_newline (Option.some.inj hmem).symm
        · exact ih h.2 (.inl hpositive)
      · -- The byte breaks the character off and is read again as a leading byte.
        rw [List.cons_append, List.mem_cons, List.mem_append, not_or, not_or]
        exact ⟨nofun, hlead, hagain⟩

/-- Neither does a replacement character make one. -/
theorem oneLine_decodeLossy {bytes : List UInt8} (h : 10 ∉ bytes) :
    OneLine (decodeLossy bytes) := by
  unfold decodeLossy
  rw [OneLine.ofList, List.mem_map]
  rintro ⟨part, hpart, hnewline⟩
  cases part with
  | none => exact absurd hnewline (by decide)
  | some c =>
    have hc : c = '\n' := hnewline
    rw [hc] at hpart
    exact newline_not_mem_parts h (show State.start.Far from trivial) hpart

end Utf8

/-! ## Request lines and their tokens -/

theorem Text.mem_of_mem_trimEnd {p : Char → Bool} {text : List Char} {c : Char}
    (h : c ∈ Text.trimEnd p text) : c ∈ text := by
  unfold Text.trimEnd at h
  rw [List.mem_reverse] at h
  exact List.mem_reverse.mp ((List.dropWhile_suffix p).mem h)

/-- The text of a line is on one line. -/
theorem Line.oneLine_textOf {body : Bytes} (h : 10 ∉ body) : OneLine (Line.textOf body) :=
  OneLine.ofList.mpr fun hmem => Utf8.oneLine_decodeLossy h (Text.mem_of_mem_trimEnd hmem)

theorem Line.oneLine_of_split {limit : Nat} {buffer : Bytes} {line : Line}
    (h : Line.split limit buffer = .ok (some line)) : OneLine line.text := by
  obtain ⟨_, _, hbody, _, _, rfl⟩ := Line.exists_of_split h
  exact Line.oneLine_textOf hbody

namespace Command

theorem mem_of_mem_stripColon {token : List Char} {c : Char} (h : c ∈ stripColon token) :
    c ∈ token := by
  unfold stripColon at h
  split at h
  · exact List.mem_of_mem_dropLast h
  · exact h

/-- The tokens of a command are on one line if its line is. -/
theorem oneLine_of_mem_tokens {line : String} {c : Command} (hline : OneLine line)
    (hparse : parse? line = some c) {token : String} (htoken : token ∈ c.tokens) :
    OneLine token := by
  have htrimmed : '\n' ∉ trimmed line.toList := fun hmem =>
    hline (Text.mem_of_mem_trimEnd (Text.mem_of_mem_trimEnd hmem))
  have hpieces : ∀ piece ∈ (trimmed line.toList).splitOn ' ', '\n' ∉ piece := by
    rw [← OneLine.not_mem_intercalate (show ' ' ≠ '\n' by decide), List.intercalate_splitOn]
    exact htrimmed
  obtain ⟨first, rest, hsplit, _, rfl⟩ := exists_splitOn_of_parse? hparse
  rw [hsplit] at hpieces
  rcases List.mem_cons.mp htoken with rfl | hargument
  · exact OneLine.ofList.mpr fun hmem =>
      hpieces first List.mem_cons_self (mem_of_mem_stripColon hmem)
  · obtain ⟨piece, hpiece, rfl⟩ := List.mem_map.mp hargument
    exact OneLine.ofList.mpr (hpieces piece (List.mem_cons_of_mem _ hpiece))

end Command

end Seismic
