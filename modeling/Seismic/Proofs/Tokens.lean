import Mathlib.Data.List.DropRight
import Seismic.Proofs.OneLine

/-!
# Tokens — a request line is its tokens

A line is cut at every single space of its body, which is what is left of it without line ends and
spaces at its end. So the tokens tell the whole body, doubled spaces included, and a line that is
written from tokens is read as these.

* **`Command.isBody_trimmed`**: what the body of a line is;
* **`Command.parse?_eq_none_iff`**: which lines are no command;
* **`Command.retells_of_parse?`**: what the tokens of a command tell of its line;
* **`Command.parse?_join`**: which tokens are read back;
* **`Command.tokens_exact`** puts this together.
-/

namespace Seismic

/-! ## The end of a line -/

namespace Text

variable {p : Char → Bool} {text : List Char}

/-- Trimming is dropping from the right. -/
theorem trimEnd_eq_rdropWhile (p : Char → Bool) (text : List Char) :
    trimEnd p text = text.rdropWhile p :=
  rfl

/-- What is trimmed off is nothing but what is to be trimmed off. -/
theorem exists_trimEnd (p : Char → Bool) (text : List Char) :
    ∃ ends, text = trimEnd p text ++ ends ∧ ∀ c ∈ ends, p c = true :=
  ⟨text.rtakeWhile p, List.rdropWhile_append_rtakeWhile.symm, fun _ => List.mem_rtakeWhile_imp⟩

/-- And all of it. -/
theorem of_getLast?_trimEnd {c : Char} (h : (trimEnd p text).getLast? = some c) : p c = false := by
  have hnot := List.head?_dropWhile_not p text.reverse
  rw [trimEnd, List.getLast?_reverse] at h
  rw [h] at hnot
  exact hnot

/-- A text with nothing to trim off stays as it is. -/
theorem trimEnd_eq_self (h : ∀ c, text.getLast? = some c → p c = false) :
    trimEnd p text = text := by
  rw [trimEnd_eq_rdropWhile, List.rdropWhile_eq_self_iff]
  intro hne
  rw [h _ (List.getLast?_eq_some_getLast hne)]
  exact Bool.false_ne_true

/-- A joined text ends as the last of its fields does, unless that is empty. -/
theorem getLast?_join {separator c : Char} {texts : List String} {last : String}
    (hlast : texts.getLast? = some last) (hc : last.toList.getLast? = some c) :
    (join separator texts).toList.getLast? = some c := by
  obtain ⟨first, rfl⟩ := List.getLast?_eq_some_iff.mp hlast
  by_cases hfirst : first = []
  · rw [hfirst, List.nil_append, join_singleton]
    exact hc
  · rw [join_concat separator hfirst, String.toList_append, List.getLast?_append, hc]
    rfl

end Text

namespace Command

/-- `body` is `line` without its line ends at the end and then without its spaces at the end. -/
structure IsBody (line body : List Char) : Prop where
  ends : ∃ spaces ends, line = body ++ spaces ++ ends ∧ (∀ c ∈ spaces, c = ' ') ∧
    (∀ c ∈ ends, c = '\r' ∨ c = '\n') ∧
    ∀ c, (body ++ spaces).getLast? = some c → c ≠ '\r' ∧ c ≠ '\n'
  last : body.getLast? ≠ some ' '

/-- **What a line is trimmed to is its body.** -/
theorem isBody_trimmed (line : List Char) : IsBody line (trimmed line) where
  ends := by
    obtain ⟨ends, hline, hends⟩ := Text.exists_trimEnd (fun c => c = '\r' || c = '\n') line
    obtain ⟨spaces, hspaced, hspaces⟩ := Text.exists_trimEnd (· = ' ')
      (Text.trimEnd (fun c => c = '\r' || c = '\n') line)
    refine ⟨spaces, ends, ?_, fun c hc => of_decide_eq_true (hspaces c hc), fun c hc => ?_,
      fun c hc => ?_⟩
    · rw [trimmed, ← hspaced]
      exact hline
    · simpa using hends c hc
    · rw [trimmed, ← hspaced] at hc
      simpa using Text.of_getLast?_trimEnd hc
  last h := absurd (Text.of_getLast?_trimEnd h) (by decide)

/-- A text that ends in neither a line end nor a space is its own body. -/
theorem trimmed_eq_self {line : List Char} {c : Char} (h : line.getLast? = some c)
    (hspace : c ≠ ' ') (hends : c ≠ '\r' ∧ c ≠ '\n') : trimmed line = line := by
  have hline : Text.trimEnd (fun c => c = '\r' || c = '\n') line = line := by
    refine Text.trimEnd_eq_self fun d hd => ?_
    rw [h, Option.some.injEq] at hd
    simp [← hd, hends]
  rw [trimmed, hline]
  refine Text.trimEnd_eq_self fun d hd => ?_
  rw [h, Option.some.injEq] at hd
  simp [← hd, hspace]

/-! ## The keyword -/

/-- The part of a body before its first space. -/
def firstWord (body : List Char) : List Char := body.takeWhile (· ≠ ' ')

/-- The first piece of a body is its first word. -/
theorem exists_splitOn (body : List Char) : ∃ rest, body.splitOn ' ' = firstWord body :: rest := by
  unfold firstWord
  by_cases h : ' ' ∈ body
  · obtain ⟨first, rest, rfl, hfirst⟩ := List.eq_append_cons_of_mem h
    rw [List.splitOn_append_cons_self_of_not_mem hfirst, takeWhile_ne_append_cons hfirst]
    exact ⟨_, rfl⟩
  · rw [List.splitOn_eq_singleton h, takeWhile_ne_eq_self h]
    exact ⟨[], rfl⟩

/-- The colon that is stripped off a token, if there is one. -/
def colonOf (token : List Char) : List Char := if token.getLast? = some ':' then [':'] else []

/-- A token is what is left of it and its colon. -/
theorem stripColon_append_colonOf (token : List Char) :
    stripColon token ++ colonOf token = token := by
  unfold stripColon colonOf
  split
  · next h => exact List.dropLast_append_getLast? _ h
  · exact List.append_nil token

/-- Nothing is left of nothing and of a lone colon. -/
theorem stripColon_eq_nil_iff {token : List Char} :
    stripColon token = [] ↔ token = [] ∨ token = [':'] := by
  constructor
  · intro h
    have htoken := stripColon_append_colonOf token
    rw [h, List.nil_append, colonOf] at htoken
    split at htoken
    · exact .inr htoken.symm
    · exact .inl htoken.symm
  · rintro (rfl | rfl)
    · rfl
    · rfl

theorem stripColon_concat (token : List Char) : stripColon (token ++ [':']) = token := by
  rw [stripColon, List.getLast?_concat, if_pos rfl, List.dropLast_concat]

/-- **Which lines are no command**: those that begin with a space, and those whose first word is a
lone colon. -/
theorem parse?_eq_none_iff (line : String) :
    parse? line = none ↔
      firstWord (trimmed line.toList) = [] ∨ firstWord (trimmed line.toList) = [':'] := by
  obtain ⟨rest, hsplit⟩ := exists_splitOn (trimmed line.toList)
  rw [parse?_of_splitOn hsplit, ← stripColon_eq_nil_iff, ite_eq_left_iff, List.isEmpty_iff]
  refine ⟨fun h => Classical.byContradiction fun hne => ?_, fun h hne => absurd h hne⟩
  exact Option.some_ne_none _ (h hne)

/-! ## Tokens of a line -/

/-- What the tokens of a command tell of the body of its line. -/
structure Retells (body : List Char) (c : Command) : Prop where
  spaceless : ∀ token ∈ c.tokens, Lacks ' ' token
  /-- With a colon behind the keyword, if there was one, the tokens make up the body. -/
  joined : Text.join ' ' ((c.keyword ++ String.ofList (colonOf (firstWord body))) :: c.arguments) =
    String.ofList body
  /-- Spaces at the end give no tokens. -/
  last : c.tokens.getLast? ≠ some ""

/-- The last of several tokens that make up a text is empty only if the text ends with a space. -/
theorem getLast?_join_of_empty {first : String} {rest : List String}
    (hlast : rest.getLast? = some "") :
    (Text.join ' ' (first :: rest)).toList.getLast? = some ' ' := by
  obtain ⟨more, rfl⟩ := List.getLast?_eq_some_iff.mp hlast
  rw [← List.cons_append, Text.join_concat ' ' (List.cons_ne_nil _ _)]
  simp

/-- **The tokens of a command tell the body of its line.** -/
theorem retells_of_parse? {line : String} {c : Command} (h : parse? line = some c) :
    Retells (trimmed line.toList) c := by
  have hbody := isBody_trimmed line.toList
  obtain ⟨rest, hsplit⟩ := exists_splitOn (trimmed line.toList)
  obtain ⟨first, rest', hsplit', hkeyword, rfl⟩ := exists_splitOn_of_parse? h
  obtain ⟨rfl, rfl⟩ := List.cons.inj (hsplit'.symm.trans hsplit)
  have hjoined : Text.join ' '
      ((String.ofList (stripColon (firstWord (trimmed line.toList))) ++
        String.ofList (colonOf (firstWord (trimmed line.toList)))) ::
          rest'.map String.ofList) = String.ofList (trimmed line.toList) := by
    have hsame : ∀ piece : List Char, (String.toList ∘ String.ofList) piece = piece :=
      fun piece => String.toList_ofList
    rw [← String.ofList_append, stripColon_append_colonOf, ← List.map_cons, ← hsplit, Text.join,
      List.map_map, List.map_id'' hsame, List.intercalate_splitOn]
  refine ⟨?_, hjoined, fun hlast => ?_⟩
  · have hspaceless : ∀ piece ∈ (trimmed line.toList).splitOn ' ', ' ' ∉ piece :=
      Text.not_mem_of_mem_splitOn
    rw [hsplit, List.forall_mem_cons] at hspaceless
    rw [tokens, List.forall_mem_cons, List.forall_mem_map]
    refine ⟨fun hmem => hspaceless.1 (mem_of_mem_stripColon ?_), fun piece hpiece hmem =>
      hspaceless.2 piece hpiece ?_⟩
    · rwa [String.toList_ofList] at hmem
    · rwa [String.toList_ofList] at hmem
  -- An empty last token would be an empty keyword, or stand behind a space at the end of the body.
  · by_cases hrest : rest'.map String.ofList = []
    · rw [tokens, hrest, List.getLast?_singleton, Option.some.injEq] at hlast
      exact hkeyword (String.ofList_injective hlast)
    · rw [tokens, List.getLast?_cons_of_ne_nil hrest] at hlast
      have hspace : (String.ofList (trimmed line.toList)).toList.getLast? = some ' ' := by
        rw [← hjoined]
        exact getLast?_join_of_empty hlast
      rw [String.toList_ofList] at hspace
      exact hbody.last hspace

/-! ## A line of tokens -/

/-- Tokens that a line can be written with: no space is in them, and the last one is not taken for
the end of the line. -/
structure Spellable (tokens : List String) : Prop where
  spaceless : ∀ token ∈ tokens, Lacks ' ' token
  last : ∃ token c, tokens.getLast? = some token ∧ token.toList.getLast? = some c ∧
    c ≠ '\r' ∧ c ≠ '\n'

/-- A line of spellable tokens is cut into these tokens. -/
theorem splitOn_join {first : String} {rest : List String} (h : Spellable (first :: rest)) :
    (trimmed (Text.join ' ' (first :: rest)).toList).splitOn ' ' =
      first.toList :: rest.map String.toList := by
  obtain ⟨last, c, hlast, hc, hends⟩ := h.last
  have hspace : c ≠ ' ' := by
    rintro rfl
    exact h.spaceless last (List.mem_of_getLast? hlast) (List.mem_of_getLast? hc)
  rw [trimmed_eq_self (Text.getLast?_join hlast hc) hspace hends, Text.join, String.toList_ofList]
  refine List.splitOn_intercalate _ ?_ (List.cons_ne_nil _ _)
  rw [List.forall_mem_map]
  exact h.spaceless

/-- **A line of tokens is read as these**, up to a colon of the first one. -/
theorem parse?_join {first : String} {rest : List String} (h : Spellable (first :: rest)) :
    parse? (Text.join ' ' (first :: rest)) =
      if (stripColon first.toList).isEmpty then none
      else some ⟨String.ofList (stripColon first.toList), rest⟩ := by
  have hsame : ∀ token : String, (String.ofList ∘ String.toList) token = token :=
    fun token => String.ofList_toList
  rw [parse?_of_splitOn (splitOn_join h), List.map_map, List.map_id'' hsame]

/-- A colon behind the first token does no harm. -/
theorem Spellable.append_colon {first : String} {rest : List String}
    (h : Spellable (first :: rest)) : Spellable ((first ++ ":") :: rest) where
  spaceless := by
    obtain ⟨hfirst, hrest⟩ := List.forall_mem_cons.mp h.spaceless
    refine List.forall_mem_cons.mpr ⟨?_, hrest⟩
    unfold Lacks
    rw [String.toList_append, List.mem_append]
    exact fun hmem => hmem.elim hfirst (by decide)
  last := by
    obtain ⟨last, c, hlast, hc, hends⟩ := h.last
    -- The last token is still the same, or it is the keyword and now ends with the colon.
    by_cases hrest : rest = []
    · rw [hrest]
      exact ⟨_, ':', List.getLast?_singleton, by simp, by decide, by decide⟩
    · rw [List.getLast?_cons_of_ne_nil hrest] at hlast
      rw [List.getLast?_cons_of_ne_nil hrest]
      exact ⟨last, c, hlast, hc, hends⟩

/-- **Tokens are exact.** A line is no command exactly if its first word is empty or a lone colon;
otherwise its tokens tell its whole body. And whatever tokens a line is written with, with a colon
behind the keyword or without, they are what it is read as. -/
theorem tokens_exact :
    (∀ line : String, IsBody line.toList (trimmed line.toList) ∧
      (parse? line = none ↔
        firstWord (trimmed line.toList) = [] ∨ firstWord (trimmed line.toList) = [':']) ∧
      ∀ c, parse? line = some c → Retells (trimmed line.toList) c) ∧
    ∀ c : Command, c.keyword ≠ "" → c.keyword.toList.getLast? ≠ some ':' → Spellable c.tokens →
      parse? (Text.join ' ' c.tokens) = some c ∧
      parse? (Text.join ' ' ((c.keyword ++ ":") :: c.arguments)) = some c := by
  refine ⟨fun line => ⟨isBody_trimmed _, parse?_eq_none_iff line, fun c => retells_of_parse?⟩, ?_⟩
  rintro ⟨keyword, arguments⟩ hkeyword hcolon hspellable
  have hne : ¬ keyword.toList.isEmpty = true := fun h =>
    hkeyword (String.toList_injective (List.isEmpty_iff.mp h))
  have hplain : stripColon keyword.toList = keyword.toList := if_neg hcolon
  have hstripped : stripColon (keyword ++ ":").toList = keyword.toList := by
    rw [String.toList_append]
    exact stripColon_concat keyword.toList
  constructor
  · show parse? (Text.join ' ' (keyword :: arguments)) = _
    rw [parse?_join hspellable, hplain, if_neg hne, String.ofList_toList]
  · rw [parse?_join hspellable.append_colon, hstripped, if_neg hne, String.ofList_toList]

/-- A colon is stripped, the spaces at the end do not count, and a doubled one holds a token. -/
example : parse? "MENU: 1  SCNL  \r" = some ⟨"MENU", ["1", "", "SCNL"]⟩ := by decide +kernel

end Command

end Seismic
