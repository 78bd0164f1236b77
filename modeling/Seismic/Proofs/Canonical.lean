import Seismic.Proofs.Escaping

/-!
# Canonical — the texts that escaping writes

Every text is written in one way, and what is written can be told from other texts: no bare comma or
newline is in it, and it comes apart into plain characters and the three pairs. Other texts can be
read too, but they are not what would be written for what they are read as.

* **`Escape.encode_decode_iff`**: a text is what is written for what it is read as exactly if it is
  canonical;
* **`Escape.splitRecord_escaped_iff`**: a record of escaped fields comes apart into these exactly if
  there is no field or the last one is not empty;
* **`Escape.canonical_texts`** puts this together.
-/

namespace Seismic.Escape

/-! ## Canonical texts -/

/-- A text that comes apart, from the left, into plain characters and the pairs that stand for a
backslash, a comma and a newline. -/
inductive Paired : List Char → Prop
  | nil : Paired []
  | plain {c : Char} {rest : List Char} (hc : c ≠ '\\') (hrest : Paired rest) : Paired (c :: rest)
  | pair {c : Char} {rest : List Char} (hc : c = '\\' ∨ c = 'c' ∨ c = 'n') (hrest : Paired rest) :
      Paired ('\\' :: c :: rest)

/-- A text that could have been written. -/
structure Canonical (text : List Char) : Prop where
  comma : ',' ∉ text
  newline : '\n' ∉ text
  paired : Paired text

/-- One character is written as itself or as a pair. -/
theorem paired_encodeChar_append (c : Char) {rest : List Char} (hrest : Paired rest) :
    Paired (encodeChar c ++ rest) := by
  unfold encodeChar
  split
  · exact .pair (by decide) hrest
  · exact .pair (by decide) hrest
  · exact .pair (by decide) hrest
  · next hbackslash _ _ => exact .plain hbackslash hrest

theorem comma_not_mem_encodeChar (c : Char) : ',' ∉ encodeChar c := by
  unfold encodeChar
  split
  · decide
  · decide
  · decide
  · next _ hcomma _ => exact fun hmem => hcomma (List.mem_singleton.mp hmem).symm

/-- **What is written is canonical.** -/
theorem canonical_encode (text : List Char) : Canonical (encode text) where
  comma := by
    unfold encode
    rw [List.mem_flatMap]
    rintro ⟨c, _, hc⟩
    exact comma_not_mem_encodeChar c hc
  newline := by
    unfold encode
    rw [List.mem_flatMap]
    rintro ⟨c, _, hc⟩
    exact OneLine.not_mem_encodeChar c hc
  paired := by
    induction text with
    | nil => exact .nil
    | cons c rest ih => exact paired_encodeChar_append c ih

/-- Nothing but a comma, a newline and a backslash is written as anything but itself. -/
theorem encodeChar_of_plain {c : Char} (hbackslash : c ≠ '\\') (hcomma : c ≠ ',')
    (hnewline : c ≠ '\n') : encodeChar c = [c] := by
  unfold encodeChar
  split
  · exact absurd rfl hbackslash
  · exact absurd rfl hcomma
  · exact absurd rfl hnewline
  · rfl

/-- A canonical text is written for what it is read as. -/
theorem encode_decode {text : List Char} (h : Canonical text) : encode (decode text) = text := by
  obtain ⟨hcomma, hnewline, hpaired⟩ := h
  -- By induction along the pairs: each is read as one character, which is written as this pair.
  induction hpaired with
  | nil => rfl
  | @plain c rest hc hrest ih =>
    rw [List.mem_cons, not_or] at hcomma hnewline
    rw [decode_cons_of_plain hc, encode, List.flatMap_cons,
      encodeChar_of_plain hc (Ne.symm hcomma.1) (Ne.symm hnewline.1)]
    exact congrArg (c :: ·) (ih hcomma.2 hnewline.2)
  | @pair c rest hc hrest ih =>
    have hdecoded := ih (fun hmem => hcomma (.tail _ (.tail _ hmem)))
      fun hmem => hnewline (.tail _ (.tail _ hmem))
    rcases hc with rfl | rfl | rfl
    · exact congrArg ('\\' :: '\\' :: ·) hdecoded
    · exact congrArg ('\\' :: 'c' :: ·) hdecoded
    · exact congrArg ('\\' :: 'n' :: ·) hdecoded

/-- **Canonical texts** are those that are written for what they are read as. -/
theorem encode_decode_iff {text : List Char} : encode (decode text) = text ↔ Canonical text :=
  ⟨fun h => h ▸ canonical_encode _, encode_decode⟩

/-- And so of texts as strings. -/
theorem escape_unescape_iff {text : String} :
    escape (unescape text) = text ↔ Canonical text.toList := by
  rw [escape, unescape, String.toList_ofList, ← encode_decode_iff]
  exact ⟨fun h => by rw [← h, String.toList_ofList, decode_encode],
    fun h => by rw [h, String.ofList_toList]⟩

/-- No two texts are written alike. -/
theorem escape_injective : Function.Injective escape :=
  Function.LeftInverse.injective unescape_escape

theorem escape_empty : escape "" = "" :=
  rfl

/-! ## Records of escaped fields -/

/-- **A record of escaped fields is exact** unless its last field is empty. -/
theorem splitRecord_escaped_iff {texts : List String} :
    splitRecord (record (texts.map escape)) = texts ↔ texts.getLast? ≠ some "" := by
  have hwhole : ∀ text ∈ texts.map escape, Whole text.toList := by
    rw [List.forall_mem_map]
    exact fun text _ => Whole.escape text
  have hread : ∀ texts : List String, (texts.map escape).map unescape = texts := by
    intro texts
    rw [List.map_map]
    exact List.map_id'' unescape_escape texts
  have hlast : (texts.map escape).getLast? = some "" ↔ texts.getLast? = some "" :=
    getLast?_map_eq_some_iff escape_empty fun _ hempty =>
      escape_injective (hempty.trans escape_empty.symm)
  rw [splitRecord_record hwhole]
  by_cases hempty : texts.getLast? = some ""
  · -- The last field is lost, so there are too few.
    rw [if_pos (hlast.mpr hempty), ← List.map_dropLast, hread]
    refine ⟨fun h => ?_, fun h => absurd hempty h⟩
    have hlength := congrArg List.length h
    have hpos := List.length_pos_of_mem (List.mem_of_getLast? hempty)
    rw [List.length_dropLast] at hlength
    omega
  · rw [if_neg (mt hlast.mp hempty), hread]
    exact iff_of_true rfl hempty

/-- **Escaping is a bijection onto the canonical texts**, and records of escaped fields are exact.
Whatever is written is canonical and is read back; a text is written for what it is read as exactly
if it is canonical; and a record loses a field only if its last one is empty. -/
theorem canonical_texts :
    (∀ text, unescape (escape text) = text) ∧
    (∀ text, Lacks ',' (escape text) ∧ OneLine (escape text) ∧ Canonical (escape text).toList) ∧
    (∀ text, escape (unescape text) = text ↔ Canonical text.toList) ∧
    ∀ texts, splitRecord (Text.join ',' (texts.map escape)) = texts ↔
      texts = [] ∨ ∃ last, texts.getLast? = some last ∧ last ≠ "" := by
  have hcanonical : ∀ text, Canonical (escape text).toList := by
    intro text
    rw [escape, String.toList_ofList]
    exact canonical_encode _
  refine ⟨unescape_escape,
    fun text => ⟨(hcanonical text).comma, (hcanonical text).newline, hcanonical text⟩,
    fun text => escape_unescape_iff, fun texts => ?_⟩
  rw [← record, splitRecord_escaped_iff]
  cases hlast : texts.getLast? with
  | none =>
    exact iff_of_true (Option.some_ne_none _).symm (.inl (List.getLast?_eq_none_iff.mp hlast))
  | some last =>
    constructor
    · exact fun hne => .inr ⟨last, rfl, fun hempty => hne (congrArg some hempty)⟩
    · rintro (rfl | ⟨_, heq, hne⟩)
      · cases hlast
      · exact heq ▸ mt Option.some.inj hne

end Seismic.Escape
