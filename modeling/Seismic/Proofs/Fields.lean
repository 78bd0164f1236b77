import Seismic.Proofs.Written
import Seismic.Request.Command
import Seismic.Text.Escape

/-!
# Fields — cutting a text gives back what was joined

A reply is read by cutting it at single spaces. That gives back the tokens it was put together from
as long as none of them has a space in it, which holds of written numbers and of all tokens that a
request repeats.

* **`Text.fields_join`**: joined tokens come apart again;
* **`Command.lacks_space_of_mem_arguments`**: the tokens of a command have no space in them.
-/

namespace Seismic

/-- A character does not occur in a text. -/
def Lacks (c : Char) (text : String) : Prop := c ∉ text.toList

instance (c : Char) (text : String) : Decidable (Lacks c text) :=
  inferInstanceAs (Decidable (c ∉ text.toList))

namespace Lacks

/-- Written numbers lack every character that is not in numbers. -/
theorem of_inNumbers {c : Char} (hc : Numeral.inNumbers c = false) {text : String}
    (h : ∀ d ∈ text.toList, Numeral.inNumbers d = true) : Lacks c text := by
  intro hmem
  rw [h c hmem] at hc
  cases hc

theorem ofNat {c : Char} (hc : Numeral.inNumbers c = false) (n : Nat) :
    Lacks c (Numeral.ofNat n) :=
  of_inNumbers hc fun _ => Numeral.inNumbers_of_mem_ofNat

theorem ofInt {c : Char} (hc : Numeral.inNumbers c = false) (n : Int) :
    Lacks c (Numeral.ofInt n) :=
  of_inNumbers hc fun _ => Numeral.inNumbers_of_mem_ofInt

theorem fixed {c : Char} (hc : Numeral.inNumbers c = false) (x : Binary64) : Lacks c x.fixed :=
  of_inNumbers hc fun _ => Binary64.inNumbers_of_mem_fixed

end Lacks

/-! ## Joining and cutting -/

namespace Text

theorem join_cons_cons (separator : Char) (first second : String) (rest : List String) :
    join separator (first :: second :: rest) =
      first ++ String.singleton separator ++ join separator (second :: rest) := by
  apply String.toList_injective
  unfold join
  simp [List.intercalate_cons_cons]

theorem join_singleton (separator : Char) (text : String) : join separator [text] = text := by
  apply String.toList_injective
  unfold join
  simp

/-- Two joins make one, with a separator between them. -/
theorem join_append (separator : Char) {first rest : List String} (hfirst : first ≠ [])
    (hrest : rest ≠ []) :
    join separator (first ++ rest) =
      join separator first ++ String.singleton separator ++ join separator rest := by
  induction first with
  | nil => exact absurd rfl hfirst
  | cons text more ih =>
    -- The last text of the first list gets its separator from the second list.
    cases more with
    | nil =>
      obtain ⟨next, others, rfl⟩ := List.exists_cons_of_ne_nil hrest
      rw [List.singleton_append, join_cons_cons, join_singleton]
    | cons next others =>
      rw [List.cons_append, List.cons_append, join_cons_cons, ← List.cons_append,
        ih (List.cons_ne_nil _ _), join_cons_cons]
      simp only [String.append_assoc]

theorem join_concat (separator : Char) {first : List String} (h : first ≠ []) (text : String) :
    join separator (first ++ [text]) =
      join separator first ++ String.singleton separator ++ text := by
  rw [join_append separator h (List.cons_ne_nil _ _), join_singleton]

/-- **Joined fields come apart again.** -/
theorem fields_join {separator : Char} {texts : List String} (hne : texts ≠ [])
    (h : ∀ text ∈ texts, Lacks separator text) :
    fields separator (join separator texts) = texts := by
  have hpieces : ∀ piece ∈ texts.map String.toList, separator ∉ piece := by
    rw [List.forall_mem_map]
    exact h
  have hne' : texts.map String.toList ≠ [] := mt List.map_eq_nil_iff.mp hne
  -- Cutting undoes joining on lists of characters; the rest is text and back.
  unfold fields join
  rw [String.toList_ofList, List.splitOn_intercalate _ hpieces hne', List.map_map]
  exact List.map_id'' (fun text => String.ofList_toList) _

/-- A text without separators is one field. -/
theorem fields_of_lacks {separator : Char} {text : String} (h : Lacks separator text) :
    fields separator text = [text] := by
  unfold fields
  rw [List.splitOn_eq_singleton h, List.map_singleton, String.ofList_toList]

/-- The first field ends at the first space, whatever follows it. -/
theorem fields_append_space {first : String} (h : Lacks ' ' first) (rest : String) :
    fields ' ' (first ++ " " ++ rest) = first :: fields ' ' rest := by
  have htext : (first ++ " " ++ rest).toList = first.toList ++ ' ' :: rest.toList := by
    simp
  unfold fields
  rw [htext, List.splitOn_append_cons_self_of_not_mem h, List.map_cons, String.ofList_toList]

/-- No piece has the character at which it was cut. -/
theorem not_mem_of_mem_splitOn {c : Char} {text : List Char} :
    ∀ piece ∈ text.splitOn c, c ∉ piece := by
  induction text with
  | nil => simp
  | cons d rest ih =>
    intro piece hpiece
    rw [List.splitOn_cons_eq_if_modifyHead] at hpiece
    -- The first character starts a new piece or goes to the piece that comes next.
    split at hpiece
    · rcases List.mem_cons.mp hpiece with rfl | hpiece
      · exact List.not_mem_nil
      · exact ih piece hpiece
    · next hne =>
      obtain ⟨first, others, hsplit⟩ := List.exists_cons_of_ne_nil (List.splitOn_ne_nil c rest)
      rw [hsplit] at hpiece ih
      rw [List.modifyHead_cons] at hpiece
      rcases List.mem_cons.mp hpiece with rfl | hpiece
      · rw [List.mem_cons, not_or]
        exact ⟨fun heq => hne (beq_iff_eq.mpr heq.symm), ih first List.mem_cons_self⟩
      · exact ih piece (List.mem_cons_of_mem _ hpiece)

end Text

namespace Command

/-- What a line is cut into says what it is as a command. -/
theorem parse?_of_splitOn {line : String} {first : List Char} {rest : List (List Char)}
    (h : (trimmed line.toList).splitOn ' ' = first :: rest) :
    parse? line = if (stripColon first).isEmpty then none
      else some ⟨String.ofList (stripColon first), rest.map String.ofList⟩ := by
  unfold parse?
  rw [h]

/-- A command is what its line is cut into, but for a colon of the first piece. -/
theorem exists_splitOn_of_parse? {line : String} {c : Command} (h : parse? line = some c) :
    ∃ first rest, (trimmed line.toList).splitOn ' ' = first :: rest ∧ stripColon first ≠ [] ∧
      c = ⟨String.ofList (stripColon first), rest.map String.ofList⟩ := by
  obtain ⟨first, rest, hsplit⟩ :=
    List.exists_cons_of_ne_nil (List.splitOn_ne_nil ' ' (trimmed line.toList))
  rw [parse?_of_splitOn hsplit, Option.ite_none_left_eq_some, Option.some.injEq] at h
  exact ⟨first, rest, hsplit, mt List.isEmpty_iff.mpr h.1, h.2.symm⟩

/-- **No token of a command has a space in it.** -/
theorem lacks_space_of_mem_arguments {line : String} {c : Command} (hparse : parse? line = some c)
    {token : String} (htoken : token ∈ c.arguments) : Lacks ' ' token := by
  obtain ⟨first, rest, hsplit, _, rfl⟩ := exists_splitOn_of_parse? hparse
  obtain ⟨piece, hpiece, rfl⟩ := List.mem_map.mp htoken
  have hspace := Text.not_mem_of_mem_splitOn piece (hsplit ▸ List.mem_cons_of_mem _ hpiece)
  unfold Lacks
  rw [String.toList_ofList]
  exact hspace

end Command

end Seismic
