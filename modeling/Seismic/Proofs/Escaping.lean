import Seismic.Proofs.OneLine

/-!
# Escaping — written texts are read back

A record is cut at the commas that no backslash precedes, so a cut must not mistake the end of one
field for the start of another: what stands before a comma has to be made of whole pairs and plain
characters.

* **`Escape.Whole`**: a text that no cut goes through, whatever follows it. Written texts are whole,
  and so is what is put together from whole texts;
* **`Escape.decode_encode_append`**: reading a text back stops where it was written to;
* **`Escape.splitRecord_record`**: a record of whole texts comes apart into these texts, but for an
  empty one at the end.
-/

namespace Seismic.Escape

/-! ## Cutting -/

theorem prepend_ne_nil (text : List Char) (fields : List (List Char)) :
    prepend text fields ≠ [] := by
  cases fields with
  | nil => exact List.cons_ne_nil _ _
  | cons field rest => exact List.cons_ne_nil _ _

/-- There is always a field, if only an empty one. -/
theorem cut_ne_nil (text : List Char) : cut text ≠ [] := by
  unfold cut
  split
  · exact List.cons_ne_nil _ _
  · exact prepend_ne_nil _ _
  · exact List.cons_ne_nil _ _
  · exact prepend_ne_nil _ _

/-- Texts are put in front one after the other, or together. -/
theorem prepend_append (first second : List Char) {fields : List (List Char)} (h : fields ≠ []) :
    prepend (first ++ second) fields = prepend first (prepend second fields) := by
  obtain ⟨field, rest, rfl⟩ := List.exists_cons_of_ne_nil h
  simp only [prepend, List.append_assoc]

/-- A character that is neither a backslash nor a comma belongs to its field. -/
theorem cut_cons_of_plain {c : Char} (hbackslash : c ≠ '\\') (hcomma : c ≠ ',')
    (rest : List Char) : cut (c :: rest) = prepend [c] (cut rest) := by
  conv => lhs; unfold cut
  split
  · next heq => cases heq
  · next heq => exact absurd (List.cons.inj heq).1 hbackslash
  · next heq => exact absurd (List.cons.inj heq).1 hcomma
  · next heq => rw [(List.cons.inj heq).1, (List.cons.inj heq).2]

/-- No cut goes through a text or depends on it, whatever follows. -/
def Whole (text : List Char) : Prop :=
  ∀ rest, cut (text ++ rest) = prepend text (cut rest)

namespace Whole

variable {first second : List Char}

theorem nil : Whole [] := by
  intro rest
  obtain ⟨field, fields, hcut⟩ := List.exists_cons_of_ne_nil (cut_ne_nil rest)
  rw [List.nil_append, hcut]
  rfl

theorem append (hfirst : Whole first) (hsecond : Whole second) : Whole (first ++ second) := by
  intro rest
  rw [List.append_assoc, hfirst, hsecond, prepend_append first second (cut_ne_nil rest)]

theorem plain {c : Char} (hbackslash : c ≠ '\\') (hcomma : c ≠ ',') : Whole [c] :=
  cut_cons_of_plain hbackslash hcomma

/-- **A written character is whole**: a comma is written as a pair. -/
theorem encodeChar (c : Char) : Whole (encodeChar c) := by
  unfold Escape.encodeChar
  split
  · exact fun rest => rfl
  · exact fun rest => rfl
  · exact fun rest => rfl
  · next hbackslash hcomma _ => exact plain hbackslash hcomma

theorem encode (text : List Char) : Whole (encode text) := by
  induction text with
  | nil => exact nil
  | cons c rest ih => exact (encodeChar c).append ih

theorem escape (text : String) : Whole (escape text).toList := by
  rw [Escape.escape, String.toList_ofList]
  exact encode text.toList

/-- An equals sign needs no escape. -/
theorem pair (key value : String) : Whole (pair key value).toList := by
  rw [Escape.pair, String.toList_append, String.toList_append]
  exact ((escape key).append (plain (by decide) (by decide))).append (escape value)

/-- Alone a whole text is one field. -/
theorem cut_eq (h : Whole first) : cut first = [first] := by
  have hcut := h []
  rw [List.append_nil] at hcut
  rw [hcut]
  simp only [cut, prepend, List.append_nil]

/-- A comma behind a whole text ends the field. -/
theorem cut_append_comma (h : Whole first) (rest : List Char) :
    cut (first ++ ',' :: rest) = first :: cut rest := by
  rw [h]
  simp only [cut, prepend, List.append_nil]

end Whole

/-- **Whole texts come apart at the commas that were put between them.** -/
theorem cut_intercalate {texts : List (List Char)} (hne : texts ≠ [])
    (h : ∀ text ∈ texts, Whole text) : cut ([','].intercalate texts) = texts := by
  induction texts with
  | nil => exact absurd rfl hne
  | cons first rest ih =>
    obtain ⟨hfirst, hrest⟩ := List.forall_mem_cons.mp h
    -- The empty list of fields has no text, so the induction ends with the last field.
    cases rest with
    | nil =>
      rw [List.intercalate_singleton]
      exact hfirst.cut_eq
    | cons second others =>
      rw [List.intercalate_cons_cons, List.append_assoc, List.singleton_append,
        hfirst.cut_append_comma, ih (List.cons_ne_nil _ _) hrest]

/-! ## Reading back -/

theorem decode_cons_of_plain {c : Char} (h : c ≠ '\\') (rest : List Char) :
    decode (c :: rest) = c :: decode rest := by
  conv => lhs; unfold decode
  split
  · next heq => cases heq
  · next heq => exact absurd (List.cons.inj heq).1 h
  · next heq => exact absurd (List.cons.inj heq).1 h
  · next heq => exact absurd (List.cons.inj heq).1 h
  · next heq => exact absurd (List.cons.inj heq).1 h
  · next heq => rw [(List.cons.inj heq).1, (List.cons.inj heq).2]

/-- A character is read back without a look at what follows. -/
theorem decode_encodeChar_append (c : Char) (rest : List Char) :
    decode (encodeChar c ++ rest) = c :: decode rest := by
  unfold encodeChar
  split
  · rfl
  · rfl
  · rfl
  · next hbackslash _ _ => exact decode_cons_of_plain hbackslash rest

/-- **A written text is read back**, and what follows it is read as if it stood alone. -/
theorem decode_encode_append (text rest : List Char) :
    decode (encode text ++ rest) = text ++ decode rest := by
  -- What follows must stay open in the induction: it is the rest of the text.
  induction text with
  | nil => rfl
  | cons c text ih =>
    rw [encode, List.flatMap_cons, List.append_assoc, decode_encodeChar_append]
    exact congrArg (c :: ·) ih

theorem decode_encode (text : List Char) : decode (encode text) = text := by
  have hread := decode_encode_append text []
  rw [List.append_nil] at hread
  rw [hread]
  exact List.append_nil text

/-- Written texts are read back. -/
theorem unescape_escape (text : String) : unescape (escape text) = text := by
  rw [unescape, escape, String.toList_ofList, decode_encode, String.ofList_toList]

/-- A pair is read back as key and value with the sign between them. -/
theorem unescape_pair (key value : String) :
    unescape (pair key value) = key ++ "=" ++ value := by
  apply String.toList_injective
  have hequals : decode (('=' :: encode value.toList)) = '=' :: value.toList := by
    rw [decode_cons_of_plain (by decide), decode_encode]
  simp only [unescape, pair, escape, String.toList_ofList, String.toList_append, List.append_assoc,
    decode_encode_append]
  exact congrArg (key.toList ++ ·) hequals

/-- So no field of metadata is lost at the end of a record. -/
theorem pair_ne_empty (key value : String) : pair key value ≠ "" := by
  intro h
  have hlength := congrArg String.length h
  simp [pair] at hlength

/-! ## Records -/

theorem getLast?_map_eq_some_iff {α β : Type} {f : α → β} {a : α} {b : β} (ha : f a = b)
    (h : ∀ x, f x = b → x = a) {list : List α} :
    (list.map f).getLast? = some b ↔ list.getLast? = some a := by
  rw [List.getLast?_map, Option.map_eq_some_iff]
  constructor
  · rintro ⟨x, hx, heq⟩
    rw [hx, h x heq]
  · exact fun hlast => ⟨a, hlast, ha⟩

/-- **A record comes apart into its fields**, as long as they are whole. Only an empty one at the
end is lost. -/
theorem splitRecord_record {texts : List String} (h : ∀ text ∈ texts, Whole text.toList) :
    splitRecord (record texts) =
      (if texts.getLast? = some "" then texts.dropLast else texts).map unescape := by
  by_cases hne : texts = []
  · subst hne
    rfl
  · have hcut : cut (record texts).toList = texts.map String.toList := by
      rw [record, Text.join, String.toList_ofList]
      exact cut_intercalate (mt List.map_eq_nil_iff.mp hne) (List.forall_mem_map.mpr h)
    -- Fields are compared as lists of characters, where only the empty text is empty.
    have hlast : (texts.map String.toList).getLast? = some [] ↔ texts.getLast? = some "" :=
      getLast?_map_eq_some_iff String.toList_empty fun _ hempty =>
        String.toList_injective (hempty.trans String.toList_empty.symm)
    unfold splitRecord
    simp only [hcut, hlast]
    split
    · rw [← List.map_dropLast, List.map_map]
      rfl
    · rw [List.map_map]
      rfl

end Seismic.Escape
