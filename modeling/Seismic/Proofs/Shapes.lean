import Seismic.Request.Basic

/-!
# Shapes — which commands make which requests

A reader of requests takes a command apart token by token. For each reader one lemma says everything
about the commands that it accepts and the request it makes of them, so that later proofs never open
a reader again.
-/

namespace Seismic

namespace Command

variable {c : Command}

/-- A token is a number if it spells a finite one. What spells an infinity is none. -/
theorem number?_eq_some_iff {index : Nat} {x : Binary64} :
    c.number? index = some x ↔
      (∃ token, c.token? index = some token ∧ Binary64.ofText? token = some x) ∧
        x.isFinite = true := by
  simp only [number?, Option.filter_eq_some_iff, Option.bind_eq_some_iff]

/-- A window is two numbers in a row, both in the time of requests. -/
theorem window?_eq_some_iff {index : Nat} {w : Span Time} :
    c.window? index = some w ↔
      ∃ start stop, c.number? index = some start ∧ c.number? (index + 1) = some stop ∧
        w = ⟨Time.ofWire start, Time.ofWire stop⟩ := by
  simp only [window?, Option.bind_eq_bind, Option.bind_eq_some_iff]
  constructor
  · rintro ⟨start, hstart, stop, hstop, h⟩
    cases h
    exact ⟨start, stop, hstart, hstop, rfl⟩
  · rintro ⟨start, stop, hstart, hstop, rfl⟩
    exact ⟨start, hstart, stop, hstop, rfl⟩

/-- An address stands behind the id: three codes, and a fourth where the verb names the location. -/
theorem address?_eq_some_iff {withLocation : Bool} {a : Address} :
    c.address? withLocation = some a ↔
      ∃ station channel network, c.token? 2 = some station ∧ c.token? 3 = some channel ∧
        c.token? 4 = some network ∧
        if withLocation then
          ∃ location, c.token? 5 = some location ∧ a = .of station channel network (some location)
        else a = .ofThree station channel network := by
  simp only [address?, Option.bind_eq_bind, Option.bind_eq_some_iff]
  constructor
  · rintro ⟨station, hstation, channel, hchannel, network, hnetwork, h⟩
    refine ⟨station, channel, network, hstation, hchannel, hnetwork, ?_⟩
    -- Only the fourth code depends on the verb.
    cases withLocation with
    | true =>
      simp only [if_true, Option.bind_eq_some_iff] at h ⊢
      obtain ⟨location, hlocation, h⟩ := h
      cases h
      exact ⟨location, hlocation, rfl⟩
    | false =>
      cases h
      rfl
  · rintro ⟨station, channel, network, hstation, hchannel, hnetwork, h⟩
    refine ⟨station, hstation, channel, hchannel, network, hnetwork, ?_⟩
    cases withLocation with
    | true =>
      simp only [if_true, Option.bind_eq_some_iff] at h ⊢
      obtain ⟨location, hlocation, rfl⟩ := h
      exact ⟨location, hlocation, rfl⟩
    | false =>
      simp only [Bool.false_eq_true, if_false] at h
      subst h
      rfl

end Command

namespace Request

variable {c : Command} {request : Request}

/-- **What all requests for data start with**: the id, the address and the window behind it. -/
theorem data?_eq_some_iff {withLocation : Bool} {data : DataRequest} :
    data? c withLocation = some data ↔
      c.id? = some data.id ∧ c.address? withLocation = some data.address ∧
        c.window? (if withLocation then 6 else 5) = some data.window := by
  simp only [data?, Option.bind_eq_bind, Option.bind_eq_some_iff]
  constructor
  · rintro ⟨id, hid, address, haddress, window, hwindow, h⟩
    cases h
    exact ⟨hid, haddress, hwindow⟩
  · rintro ⟨hid, haddress, hwindow⟩
    exact ⟨_, hid, _, haddress, _, hwindow, rfl⟩

/-- A third token that is no number is taken as zero, so any one will do. -/
theorem status?_eq_some_iff :
    status? c = some request ↔
      ∃ id, c.id? = some id ∧ (c.length = 2 ∨ c.length = 3) ∧
        request = .status id ((c.number? 2).getD 0) := by
  simp only [status?, Option.bind_eq_bind, Option.bind_eq_some_iff, Option.ite_none_right_eq_some,
    Bool.or_eq_true, decide_eq_true_eq]
  refine exists_congr fun id => and_congr_right fun _ => and_congr_right fun _ => ?_
  exact ⟨fun h => (Option.some.inj h).symm, fun h => congrArg some h.symm⟩

/-- Two tokens make the one variant, and the word as the third of three makes the other. -/
theorem withOption?_eq_some_iff {word : String} {make : String → Bool → Request} :
    withOption? c word make = some request ↔
      ∃ id, c.id? = some id ∧
        ((c.length = 2 ∧ request = make id false) ∨
          (c.length = 3 ∧ c.token? 2 = some word ∧ request = make id true)) := by
  simp only [withOption?, Option.bind_eq_bind, Option.bind_eq_some_iff]
  refine exists_congr fun id => and_congr_right fun _ => ?_
  -- A command has one length, so the variants exclude each other.
  by_cases htwo : c.length = 2
  · rw [if_pos htwo]
    constructor
    · intro h
      exact .inl ⟨htwo, (Option.some.inj h).symm⟩
    · rintro (⟨_, rfl⟩ | ⟨hthree, _⟩)
      · rfl
      · omega
  · rw [if_neg htwo, Option.ite_none_right_eq_some, Bool.and_eq_true, decide_eq_true_eq,
      decide_eq_true_eq]
    constructor
    · rintro ⟨⟨hthree, hword⟩, h⟩
      exact .inr ⟨hthree, hword, (Option.some.inj h).symm⟩
    · rintro (⟨h, _⟩ | ⟨hthree, hword, rfl⟩)
      · exact absurd h htwo
      · exact ⟨⟨hthree, hword⟩, rfl⟩

/-- Of three tokens the last chooses the kind, and there are two. -/
theorem records?_eq_some_iff :
    records? c = some request ↔
      ∃ id, c.id? = some id ∧ c.length = 3 ∧
        ((c.token? 2 = some "INSTRUMENT" ∧ request = .records id .instrument) ∨
          (c.token? 2 = some "CHANNEL" ∧ request = .records id .channel)) := by
  simp only [records?, Option.bind_eq_bind, Option.bind_eq_some_iff, ne_eq, ite_not,
    Option.ite_none_right_eq_some]
  refine exists_congr fun id => and_congr_right fun _ => and_congr_right fun _ => ?_
  -- By the third token: either word, or one that makes no request.
  split
  · next htoken => simp [htoken, eq_comm]
  · next htoken => simp [htoken, eq_comm]
  · next hinstrument hchannel =>
    constructor
    · intro h
      cases h
    · rintro (⟨h, _⟩ | ⟨h, _⟩)
      · exact absurd h hinstrument
      · exact absurd h hchannel

/-- The two verbs differ in where the window stands, by the one token that names the location. -/
theorem samples?_eq_some_iff {withLocation : Bool} :
    samples? c withLocation = some request ↔
      ∃ data fill, request = .samples data withLocation fill ∧
        (if withLocation then c.hasTimes 9 6 else c.hasTimes 8 5) ∧
        data? c withLocation = some data ∧
        c.token? (if withLocation then 8 else 7) = some fill := by
  -- With the variant fixed both readers are the same, one place apart.
  cases withLocation
  all_goals
    simp only [samples?, Bool.false_eq_true, if_true, if_false, Option.ite_none_right_eq_some,
      Option.bind_eq_bind, Option.bind_eq_some_iff]
    constructor
    · rintro ⟨htimes, data, hdata, fill, hfill, h⟩
      cases h
      exact ⟨data, fill, rfl, htimes, hdata, hfill⟩
    · rintro ⟨data, fill, rfl, htimes, hdata, hfill⟩
      exact ⟨htimes, data, hdata, fill, hfill, rfl⟩

/-- One reader for both verbs: how the reply is framed is not on the line. -/
theorem wave?_eq_some_iff {framing : Framing} :
    wave? c framing = some request ↔
      ∃ data compressed, request = .wave data framing compressed ∧ c.hasTimes 9 6 = true ∧
        data? c true = some data ∧ c.flag? 8 = some compressed := by
  simp only [wave?, Option.ite_none_right_eq_some, Option.bind_eq_bind, Option.bind_eq_some_iff]
  constructor
  · rintro ⟨htimes, data, hdata, compressed, hflag, h⟩
    cases h
    exact ⟨data, compressed, rfl, htimes, hdata, hflag⟩
  · rintro ⟨data, compressed, rfl, htimes, hdata, hflag⟩
    exact ⟨htimes, data, hdata, compressed, hflag, rfl⟩

/-- The line is that of a wave. -/
theorem helicorder?_eq_some_iff :
    helicorder? c = some request ↔
      ∃ data compressed, request = .helicorder data compressed ∧ c.hasTimes 9 6 = true ∧
        data? c true = some data ∧ c.flag? 8 = some compressed := by
  simp only [helicorder?, Option.ite_none_right_eq_some, Option.bind_eq_bind,
    Option.bind_eq_some_iff]
  constructor
  · rintro ⟨htimes, data, hdata, compressed, hflag, h⟩
    cases h
    exact ⟨data, compressed, rfl, htimes, hdata, hflag⟩
  · rintro ⟨data, compressed, rfl, htimes, hdata, hflag⟩
    exact ⟨htimes, data, hdata, compressed, hflag, rfl⟩

/-- The period comes between the window and the flag. -/
theorem rsam?_eq_some_iff :
    rsam? c = some request ↔
      ∃ data period compressed, request = .rsam data (Rsam.period? period) compressed ∧
        c.hasTimes 10 6 = true ∧ data? c true = some data ∧ c.integer? 8 = some period ∧
        c.flag? 9 = some compressed := by
  simp only [rsam?, Option.ite_none_right_eq_some, Option.bind_eq_bind, Option.bind_eq_some_iff]
  constructor
  · rintro ⟨htimes, period, hperiod, data, hdata, compressed, hflag, h⟩
    cases h
    exact ⟨data, period, compressed, rfl, htimes, hdata, hperiod, hflag⟩
  · rintro ⟨data, period, compressed, rfl, htimes, hdata, hperiod, hflag⟩
    exact ⟨htimes, period, hperiod, data, hdata, compressed, hflag, rfl⟩

end Request

end Seismic
