import Seismic.Proofs.Listed
import Seismic.Proofs.Lockstep

/-!
# Withholding — what a policy withholds, no answer reveals

Two archives with the same channels, instruments and cap are told apart by their samples alone. If
they give the same pieces of samples for every window within the limits of a policy, a client
cannot tell them apart at all, whatever samples outside the limits either of them has.

* **`Archive.congruence_indistinguishable`**: such archives answer alike every query that is put
  to them under the policy;
* **`answerAll_eq_of_indistinguishable`**: servers that have such archives, and are otherwise the
  same, give the same answers to every sequence of request lines.
-/

namespace Seismic

/-! ## Indistinguishable archives -/

/-- Two archives have the same channels, with the same descriptions and coverages, the same
instruments and cap, and the same pieces of samples in every window that the policy permits. -/
structure Archive.Indistinguishable (policy : Policy) (now : Time) (a b : Archive) : Prop where
  channels : a.listings true = b.listings true
  instruments : a.instruments = b.instruments
  maxSamples : a.maxSamples = b.maxSamples
  online : a.online = b.online
  clipped : ∀ (sid : Nat) window, policy.Permits now window →
    (a.recording sid).clipped window = (b.recording sid).clipped window

namespace Archive

/-- **Indistinguishable archives answer alike.** Channel lists decide all that is asked about
channels, and the pieces in a permitted window all products of it. -/
theorem congruence_indistinguishable (policy : Policy) (now : Time) :
    Archive.Congruence policy now (Indistinguishable policy now) where
  online := fun _ _ h => h.online
  asked := fun _ _ h => ⟨h.channels, h.instruments, h.maxSamples, h.online, h.clipped⟩
  listings := fun withMetadata a b h => by
    cases withMetadata with
    | true => exact h.channels
    | false => rw [listings_false, listings_false, h.channels]
  instruments := fun _ _ h => congrArg Table.values h.instruments
  sidOf := fun address a b h => by
    rw [sidOf?_eq_findIdx?, sidOf?_eq_findIdx?, h.channels]
  coverage := fun sid a b h => by
    show a.coverage sid = b.coverage sid
    rw [coverage_eq_bind, coverage_eq_bind, h.channels]
  wave := fun sid window a b h hw => by
    unfold Archive.wave Recording.wave
    rw [h.clipped sid window hw, h.maxSamples]
  helicorder := fun sid window coarse a b h hw => by
    unfold Archive.helicorder
    rw [h.clipped sid window hw]
  rsam := fun sid window period a b h hw => by
    unfold Archive.rsam
    rw [h.clipped sid window hw]

end Archive

/-! ## Whole conversations with a server -/

namespace Server

/-- The answers to request lines that come one after another. -/
def answerAll (s : Server) : List String → List Outcome
  | [] => []
  | line :: rest => (s.answer line).1 :: (s.answer line).2.answerAll rest

theorem answerAll_alike {s t : Server} {A : Archive → Archive → Prop}
    (h : Archive.Congruence s.policy s.clock.now A) (hst : s.Alike A t) (lines : List String) :
    s.answerAll lines = t.answerAll lines := by
  induction lines generalizing s t with
  | nil => rfl
  | cons line rest ih =>
    obtain ⟨hsame, hafter, hpolicy, hnow, _⟩ := h.answer_alike hst line
    -- The policy and the present stay, and with them the relation.
    rw [← hpolicy, ← hnow] at h
    unfold answerAll
    rw [hsame, ih h hafter]

/-- **Withheld samples do not influence any answer.** With archives that the policy makes
indistinguishable, and everything else the same, all request lines get the same answers. -/
theorem answerAll_eq_of_indistinguishable (s : Server) (a b : Archive)
    (h : a.Indistinguishable s.policy s.clock.now b) (lines : List String) :
    { s with archive := a }.answerAll lines = { s with archive := b }.answerAll lines :=
  answerAll_alike (s := { s with archive := a }) (t := { s with archive := b })
    (Archive.congruence_indistinguishable s.policy s.clock.now) ⟨h, rfl, rfl, rfl, rfl, rfl⟩ lines

end Server

/-! ## Two archives that differ around one moment

History is limited to a day, and a day is withheld: just one moment may be shown. The archives hold
the same sample at that moment, and other samples a second before and a second after it. -/

/-- An archive with three samples of one channel, the second at the moment that may be shown. -/
def threeSamples (before after : Int32) : Archive where
  channels := [⟨{ address := ⟨"AKV", "EHZ", "AV", none⟩ }, [⟨777599, 1, [before, 2, after]⟩]⟩]

/-- A server that shows one moment. -/
def oneMoment : Server where
  policy := ⟨1, 86400⟩
  clock := ⟨⟨947592000, 0⟩, 0⟩

theorem eq_of_permits_oneMoment {w : Span Time}
    (h : oneMoment.policy.Permits oneMoment.clock.now w) : w = ⟨777600, 777600⟩ := by
  obtain ⟨horder, hadmits⟩ := h
  obtain ⟨hstart, hstop⟩ := Binary64.isNaN_of_le horder
  -- Both limits fall on the moment, so no other time is admitted.
  have hmoment (t : Time) (ht : t.isNaN = false)
      (hadmitted : oneMoment.policy.Admits oneMoment.clock.now t) : t = 777600 := by
    have hnumber : (777600 : Time).isNaN = false := by decide +kernel
    have hkept := hadmitted.kept 777600 (by decide +kernel)
    have hreleased := hadmitted.released 777600 (by decide +kernel)
    rw [← Bool.not_eq_true, Binary64.lt_iff_rank ht hnumber] at hkept
    rw [← Bool.not_eq_true, Binary64.lt_iff_rank hnumber ht] at hreleased
    refine Binary64.eq_of_rank_eq (by decide +kernel) ?_
    omega
  have hfirst := hmoment w.start hstart (hadmits w.start ⟨Binary64.le_refl hstart, horder⟩)
  have hlast := hmoment w.stop hstop (hadmits w.stop ⟨horder, Binary64.le_refl hstop⟩)
  rcases w with ⟨start, stop⟩
  simp only at hfirst hlast
  rw [hfirst, hlast]

theorem indistinguishable_threeSamples :
    (threeSamples 1 3).Indistinguishable oneMoment.policy oneMoment.clock.now
      (threeSamples 9 8) := by
  refine ⟨by decide +kernel, rfl, rfl, rfl, fun sid w hw => ?_⟩
  rw [eq_of_permits_oneMoment hw]
  match sid with
  | 0 => rfl
  | 1 => decide +kernel
  | n + 2 =>
    have hnone (a : Archive) (h : a.channels.length = 1) : a.recording (n + 2 : Nat) = [] := by
      unfold Archive.recording Archive.stored?
      rw [if_neg (by omega), Int.toNat_natCast, List.getElem?_eq_none (by omega)]
      rfl
    rw [hnone (threeSamples 1 3) rfl, hnone (threeSamples 9 8) rfl]

/-- No request line tells the two archives apart, not even one for all three samples. -/
theorem answerAll_threeSamples :
    threeSamples 1 3 ≠ threeSamples 9 8 ∧
      (threeSamples 1 3).Indistinguishable oneMoment.policy oneMoment.clock.now
        (threeSamples 9 8) ∧
      { oneMoment with archive := threeSamples 1 3 }.answerAll
          ["MENU: 1", "GETSCNL: 2 AKV EHZ AV -- 947505598 947505602 x"] =
        { oneMoment with archive := threeSamples 9 8 }.answerAll
          ["MENU: 1", "GETSCNL: 2 AKV EHZ AV -- 947505598 947505602 x"] :=
  ⟨by decide +kernel, indistinguishable_threeSamples,
    Server.answerAll_eq_of_indistinguishable oneMoment _ _ indistinguishable_threeSamples _⟩

end Seismic
