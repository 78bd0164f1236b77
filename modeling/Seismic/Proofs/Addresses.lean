import Mathlib.Data.Prod.Lex
import Mathlib.Data.String.Basic
import Mathlib.Order.WithBot
import Seismic.Proofs.Shapes
import Seismic.Proofs.Tokens

/-!
# Addresses — one address in all its spellings and texts

That a channel has no location can be spelled in three ways, and an address is written in three
forms: with its codes between dollar signs, and with its codes between spaces in a line, with the
location or without it.

* **`Address.normalized_eq_iff`**: two addresses are normalized to one exactly if they differ in
  nothing but the spelling of no location;
* **`Address.address?_requestLine`**: a line with an address on it is read as this address;
* **`Address.code_injective`**: codes without dollar signs are told from the archive code;
* **`Address.before_iff_sortKey_lt`**: addresses are sorted by one code after the other.
-/

namespace Seismic

namespace Address

/-! ## Spellings -/

/-- The ways to spell that there is no location. -/
def noLocation : List (Option String) := [none, some "", some placeholder]

/-- Two addresses differ at most in how they spell that there is no location. -/
structure Alike (a b : Address) : Prop where
  station : a.station = b.station
  channel : a.channel = b.channel
  network : a.network = b.network
  location : a.location = b.location ∨ a.location ∈ noLocation ∧ b.location ∈ noLocation

theorem some_mem_noLocation {code : String} : some code ∈ noLocation ↔ isBlank code = true := by
  simp [noLocation, isBlank]

/-- **What normalizing does**: each of the three spellings becomes the first one. -/
theorem normalized_eq_ite (a : Address) :
    a.normalized = ⟨a.station, a.channel, a.network,
      if a.location ∈ noLocation then none else a.location⟩ := by
  rw [normalized_eq]
  cases hlocation : a.location with
  | none => simp
  | some code =>
    by_cases hblank : isBlank code = true
    · simp [some_mem_noLocation, hblank]
    · simp [some_mem_noLocation, hblank]

/-- **Spellings of one address.** Normalizing brings together what spells no location in different
ways, and nothing else. -/
theorem normalized_eq_iff {a b : Address} : a.normalized = b.normalized ↔ a.Alike b := by
  -- No location is itself one of the spellings, so it is not what a location is normalized to.
  have hne {location : Option String} (h : location ∉ noLocation) : location ≠ none := by
    rintro rfl
    exact h (by decide)
  rw [normalized_eq_ite, normalized_eq_ite, Address.mk.injEq]
  constructor
  · rintro ⟨hstation, hchannel, hnetwork, hlocation⟩
    refine ⟨hstation, hchannel, hnetwork, ?_⟩
    by_cases ha : a.location ∈ noLocation <;> by_cases hb : b.location ∈ noLocation <;>
      simp only [ha, hb, if_true, if_false] at hlocation
    · exact .inr ⟨ha, hb⟩
    · exact absurd hlocation.symm (hne hb)
    · exact absurd hlocation (hne ha)
    · exact .inl hlocation
  · rintro ⟨hstation, hchannel, hnetwork, hlocation | ⟨ha, hb⟩⟩
    · rw [hlocation]
      exact ⟨hstation, hchannel, hnetwork, rfl⟩
    · rw [if_pos ha, if_pos hb]
      exact ⟨hstation, hchannel, hnetwork, rfl⟩

instance (a b : Address) : Decidable (a.Alike b) := decidable_of_iff _ normalized_eq_iff

/-! ## On a line -/

/-- A character occurs in no code of an address. -/
structure Free (c : Char) (a : Address) : Prop where
  station : Lacks c a.station
  channel : Lacks c a.channel
  network : Lacks c a.network
  location : ∀ code, a.location = some code → Lacks c code

/-- The tokens of an address on a line. -/
def tokens (a : Address) (withLocation : Bool) : List String :=
  [a.station, a.channel, a.network] ++ if withLocation then [a.locationText] else []

/-- An address on a line is its tokens. -/
theorem wire_eq_join (a : Address) (withLocation : Bool) :
    a.wire withLocation = Text.join ' ' (a.tokens withLocation) := by
  unfold wire tokens
  cases withLocation with
  | false => simp [Text.join_cons_cons, Text.join_singleton, String.append_assoc]
  | true => simp [Text.join_cons_cons, Text.join_singleton, String.append_assoc]

theorem lacks_space_of_mem_tokens {a : Address} (h : a.Free ' ') {withLocation : Bool} :
    ∀ token ∈ a.tokens withLocation, Lacks ' ' token := by
  have hlocation : Lacks ' ' a.locationText := by
    unfold locationText
    cases hcode : a.location with
    | none => decide
    | some code => exact h.location code hcode
  cases withLocation with
  | false => simp [tokens, h.station, h.channel, h.network]
  | true => simp [tokens, h.station, h.channel, h.network, hlocation]

/-- A request line with an address on it, between an id and more tokens. -/
def requestLine (keyword id : String) (a : Address) (withLocation : Bool) (more : List String) :
    String :=
  keyword ++ " " ++ id ++ " " ++ a.wire withLocation ++ " " ++ Text.join ' ' more

/-- What stands around an address on a line does not run into it, and makes the line a command. -/
structure Frames (keyword id : String) (more : List String) : Prop where
  notEmpty : keyword ≠ ""
  notColon : keyword ≠ ":"
  keyword : Lacks ' ' keyword
  id : Lacks ' ' id
  more : Command.Spellable more

section Lines

variable {keyword id : String} {more : List String} {a : Address}

/-- So a request line is one list of tokens. -/
theorem requestLine_eq_join (hmore : more ≠ []) (withLocation : Bool) :
    requestLine keyword id a withLocation more =
      Text.join ' ' (keyword :: id :: (a.tokens withLocation ++ more)) := by
  have htokens : a.tokens withLocation ≠ [] := List.cons_ne_nil _ _
  have hrest : a.tokens withLocation ++ more ≠ [] := List.append_ne_nil_of_left_ne_nil htokens more
  obtain ⟨first, rest, hfirst⟩ := List.exists_cons_of_ne_nil hrest
  unfold requestLine
  rw [Text.join_cons_cons, hfirst, Text.join_cons_cons, ← hfirst,
    Text.join_append ' ' htokens hmore, ← wire_eq_join]
  simp [String.append_assoc]

/-- The tokens of a line are those of its address in the places behind the id. -/
theorem parse?_requestLine (h : Frames keyword id more) (ha : a.Free ' ') (withLocation : Bool) :
    ∃ word, Command.parse? (requestLine keyword id a withLocation more) =
      some ⟨word, id :: (a.tokens withLocation ++ more)⟩ := by
  -- The last token decides whether a line can be spelled, and it is one of those behind the address.
  obtain ⟨last, c, hlast, hc, hends⟩ := h.more.last
  have hmore : more ≠ [] := List.ne_nil_of_mem (List.mem_of_getLast? hlast)
  have hspellable : Command.Spellable (keyword :: id :: (a.tokens withLocation ++ more)) := by
    refine ⟨?_, last, c, ?_, hc, hends⟩
    · simp only [List.mem_cons, List.mem_append]
      rintro token (rfl | rfl | htoken | htoken)
      · exact h.keyword
      · exact h.id
      · exact lacks_space_of_mem_tokens ha token htoken
      · exact h.more.spaceless token htoken
    · rw [← List.cons_append, ← List.cons_append, List.getLast?_append, hlast]
      rfl
  have hkeyword : Command.stripColon keyword.toList ≠ [] := by
    rw [ne_eq, Command.stripColon_eq_nil_iff, not_or]
    exact ⟨fun heq => h.notEmpty (String.toList_injective heq),
      fun heq => h.notColon (String.toList_injective heq)⟩
  rw [requestLine_eq_join hmore, Command.parse?_join hspellable,
    if_neg (mt List.isEmpty_iff.mp hkeyword)]
  exact ⟨_, rfl⟩

/-- **An address on a line is read as this address**, whichever way the line spells that there is no
location. -/
theorem address?_requestLine (h : Frames keyword id more) (ha : a.Free ' ') :
    ∃ c, Command.parse? (requestLine keyword id a true more) = some c ∧
      c.address? true = some a.normalized := by
  obtain ⟨word, hparse⟩ := parse?_requestLine h ha true
  refine ⟨_, hparse, Command.address?_eq_some_iff.mpr
    ⟨a.station, a.channel, a.network, rfl, rfl, rfl, ?_⟩⟩
  rw [if_pos rfl]
  exact ⟨a.locationText, rfl, a.of_locationText.symm⟩

/-- A line without the location is read as an address that has none. -/
theorem address?_requestLine_short (h : Frames keyword id more) (ha : a.Free ' ')
    (hnone : a.location ∈ noLocation) :
    ∃ c, Command.parse? (requestLine keyword id a false more) = some c ∧
      c.address? false = some a.normalized := by
  obtain ⟨word, hparse⟩ := parse?_requestLine h ha false
  refine ⟨_, hparse, Command.address?_eq_some_iff.mpr
    ⟨a.station, a.channel, a.network, rfl, rfl, rfl, ?_⟩⟩
  rw [if_neg Bool.false_ne_true, normalized_eq_ite, if_pos hnone]
  rfl

end Lines

/-! ## The archive code -/

theorem code_eq_join (a : Address) :
    a.code = Text.join '$' ([a.station, a.channel, a.network] ++ a.location.toList) := by
  unfold code
  cases a.location with
  | none => simp [Text.join_cons_cons, Text.join_singleton, String.append_assoc]
  | some location => simp [Text.join_cons_cons, Text.join_singleton, String.append_assoc]

/-- **The archive code tells the address** if no code of it contains a dollar sign. -/
theorem code_injective {a b : Address} (ha : a.Free '$') (hb : b.Free '$')
    (h : a.code = b.code) : a = b := by
  -- Without dollar signs in them, the fields between the dollar signs are the codes.
  have hfields {a : Address} (ha : a.Free '$') :
      Text.fields '$' a.code = [a.station, a.channel, a.network] ++ a.location.toList := by
    rw [code_eq_join]
    refine Text.fields_join (List.cons_ne_nil _ _) ?_
    simp only [List.cons_append, List.nil_append, List.mem_cons, Option.mem_toList]
    rintro text (rfl | rfl | rfl | hlocation)
    · exact ha.station
    · exact ha.channel
    · exact ha.network
    · exact ha.location text hlocation
  have hcodes := hfields ha
  rw [h, hfields hb] at hcodes
  obtain ⟨station, channel, network, location⟩ := a
  obtain ⟨station', channel', network', location'⟩ := b
  simp only [List.cons_append, List.nil_append, List.cons.injEq] at hcodes
  obtain ⟨rfl, rfl, rfl, hlocation⟩ := hcodes
  cases location <;> cases location' <;> simp at hlocation
  · rfl
  · rw [hlocation]

/-! ## Order -/

/-- The codes of an address as they are compared, one after the other. -/
def sortKey (a : Address) : String ×ₗ String ×ₗ String ×ₗ WithBot String :=
  toLex (a.station, toLex (a.channel, toLex (a.network, a.location.elim ⊥ WithBot.some)))

/-- Different addresses are compared by something in which they differ. -/
theorem sortKey_injective : Function.Injective sortKey := by
  rintro ⟨station, channel, network, location⟩ ⟨station', channel', network', location'⟩ h
  simp only [sortKey, EmbeddingLike.apply_eq_iff_eq, Prod.mk.injEq] at h
  obtain ⟨rfl, rfl, rfl, hlocation⟩ := h
  cases location <;> cases location' <;> simp_all

/-- **Addresses are sorted by their codes**, the one without a location before those with one. -/
theorem before_iff_sortKey_lt {a b : Address} : a.before b = true ↔ a.sortKey < b.sortKey := by
  -- One step of the comparison is one step of the lexicographic order.
  have hcode (x y : String) (rest : Bool) :
      (if x ≠ y then decide (x < y) else rest) = true ↔ x < y ∨ x = y ∧ rest = true := by
    by_cases hxy : x = y <;> simp [hxy]
  unfold before sortKey
  rw [hcode, hcode, hcode, Prod.Lex.toLex_lt_toLex, Prod.Lex.toLex_lt_toLex,
    Prod.Lex.toLex_lt_toLex]
  cases a.location <;> cases b.location <;> simp

/-- So none is before itself, what is before a later one is before what follows, and of two
different addresses one is before the other. -/
theorem before_strict :
    (∀ a : Address, a.before a = false) ∧
    (∀ a b c : Address, a.before b = true → b.before c = true → a.before c = true) ∧
    ∀ a b : Address, a.before b = true ∨ a = b ∨ b.before a = true := by
  simp only [← Bool.not_eq_true, before_iff_sortKey_lt]
  refine ⟨fun a => lt_irrefl a.sortKey, fun a b c => lt_trans, fun a b => ?_⟩
  rw [← sortKey_injective.eq_iff]
  exact lt_trichotomy a.sortKey b.sortKey

end Address

end Seismic
