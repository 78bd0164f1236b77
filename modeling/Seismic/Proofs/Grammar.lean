import Seismic.Proofs.Shapes

/-!
# Grammar — which commands make a request

A verb is carried out if the tokens of its line have the verb's shape: so many of them, with numbers,
flags or words at certain places. `Verb.Fits` is the table of these shapes. Readers take the tokens
of a line one by one and may give up at each of them, but they never give up on a line of the right
shape:

* **`Request.exists_of_fits`**: a command that fits its verb makes a request;
* **`Request.fits_of_ofCommand?`**: and no other command does.
-/

namespace Seismic

/-! ## Shapes -/

namespace Command

/-- The token at `index` is a finite number. -/
def HasNumber (c : Command) (index : Nat) : Prop :=
  ∃ token x, c.token? index = some token ∧ Binary64.ofText? token = some x ∧ x.isFinite = true

/-- The token at `index` is an integer of 64 bits. -/
def HasInteger (c : Command) (index : Nat) : Prop :=
  ∃ token n, c.token? index = some token ∧ Numeral.int? token.toList = some n ∧
    -Nat.pow 2 63 ≤ n ∧ n < Nat.pow 2 63

def HasFlag (c : Command) (index : Nat) : Prop :=
  c.token? index = some "0" ∨ c.token? index = some "1"

end Command

/-- A command has the shape of a verb. The keyword counts as its first token. -/
def Verb.Fits (c : Command) : Verb → Prop
  | version => c.length = 1 ∨ c.length = 2
  | status => c.length = 2 ∨ c.length = 3
  | menu => c.length = 2 ∨ c.length = 3 ∧ c.token? 2 = some "SCNL"
  | getChannels => c.length = 2 ∨ c.length = 3 ∧ c.token? 2 = some "METADATA"
  | getMetadata =>
    c.length = 3 ∧ (c.token? 2 = some "INSTRUMENT" ∨ c.token? 2 = some "CHANNEL")
  | getScn => c.length = 8 ∧ c.HasNumber 5 ∧ c.HasNumber 6
  | getScnl => c.length = 9 ∧ c.HasNumber 6 ∧ c.HasNumber 7
  | getScnlRaw | getWaveRaw | getHelicorder =>
    c.length = 9 ∧ c.HasNumber 6 ∧ c.HasNumber 7 ∧ c.HasFlag 8
  | getRsam =>
    c.length = 10 ∧ c.HasNumber 6 ∧ c.HasNumber 7 ∧ c.HasInteger 8 ∧ c.HasFlag 9

/-- The verbs that drop a command without a word if it does not fit. -/
def Verb.Older (verb : Verb) : Prop := verb ∈ [menu, getScn, getScnl, getScnlRaw]

namespace Command

variable {c : Command} {index : Nat}

theorem exists_token (c : Command) (index : Nat) (h : index < c.length) :
    ∃ token, c.token? index = some token :=
  ⟨c.tokens[index], List.getElem?_eq_getElem h⟩

/-- These are the places at which a reader finds a number. -/
theorem hasNumber_iff : c.HasNumber index ↔ ∃ x, c.number? index = some x := by
  simp only [HasNumber, number?_eq_some_iff]
  constructor
  · rintro ⟨token, x, htoken, hx, hfinite⟩
    exact ⟨x, ⟨token, htoken, hx⟩, hfinite⟩
  · rintro ⟨x, ⟨token, htoken, hx⟩, hfinite⟩
    exact ⟨token, x, htoken, hx, hfinite⟩

theorem hasTimes_iff {count : Nat} :
    c.hasTimes count index = true ↔
      c.length = count ∧ c.HasNumber index ∧ c.HasNumber (index + 1) := by
  simp only [hasTimes, Bool.and_eq_true, beq_iff_eq, Option.isSome_iff_exists, hasNumber_iff,
    and_assoc]

theorem hasFlag_iff : c.HasFlag index ↔ ∃ set, c.flag? index = some set := by
  unfold HasFlag flag?
  constructor
  · rintro (h | h)
    · rw [h]
      exact ⟨false, rfl⟩
    · rw [h]
      exact ⟨true, rfl⟩
  · rintro ⟨set, h⟩
    split at h
    · next htoken => exact .inl htoken
    · next htoken => exact .inr htoken
    · cases h

theorem hasInteger_iff : c.HasInteger index ↔ ∃ n, c.integer? index = some n := by
  simp only [HasInteger, integer?, Numeral.intWithin?, Option.bind_eq_some_iff,
    Option.filter_eq_some_iff, Bool.and_eq_true, decide_eq_true_eq]
  constructor
  · rintro ⟨token, n, htoken, hn, hlow, hhigh⟩
    exact ⟨n, token, htoken, hn, hlow, by omega⟩
  · rintro ⟨n, token, htoken, hn, hlow, hhigh⟩
    exact ⟨token, n, htoken, hn, hlow, by omega⟩

theorem exists_id (c : Command) (h : 2 ≤ c.length) : ∃ id, c.id? = some id :=
  c.exists_token 1 h

/-- Enough tokens and two numbers after them name a channel and a window. -/
theorem exists_data {withLocation : Bool} {count : Nat} (hcount : c.length = count)
    (henough : (if withLocation then 6 else 5) < count)
    (hstart : c.HasNumber (if withLocation then 6 else 5))
    (hstop : c.HasNumber ((if withLocation then 6 else 5) + 1)) :
    ∃ data, Request.data? c withLocation = some data ∧
      c.hasTimes count (if withLocation then 6 else 5) = true := by
  -- There are at least as many tokens as an address without a location and an id need.
  have hfive : 5 < count := by
    cases withLocation with
    | false => exact henough
    | true =>
      have hsix : 6 < count := henough
      omega
  obtain ⟨id, hid⟩ := c.exists_id (by omega)
  obtain ⟨station, hstation⟩ := c.exists_token 2 (by omega)
  obtain ⟨channel, hchannel⟩ := c.exists_token 3 (by omega)
  obtain ⟨network, hnetwork⟩ := c.exists_token 4 (by omega)
  have haddress : ∃ address, c.address? withLocation = some address := by
    cases withLocation with
    | false =>
      exact ⟨_, address?_eq_some_iff.mpr
        ⟨station, channel, network, hstation, hchannel, hnetwork, rfl⟩⟩
    | true =>
      obtain ⟨location, hlocation⟩ := c.exists_token 5 (by omega)
      exact ⟨_, address?_eq_some_iff.mpr
        ⟨station, channel, network, hstation, hchannel, hnetwork, location, hlocation, rfl⟩⟩
  obtain ⟨address, haddress⟩ := haddress
  obtain ⟨start, hfirst⟩ := hasNumber_iff.mp hstart
  obtain ⟨stop, hlast⟩ := hasNumber_iff.mp hstop
  have hwindow : c.window? (if withLocation then 6 else 5) =
      some ⟨Time.ofWire start, Time.ofWire stop⟩ :=
    window?_eq_some_iff.mpr ⟨start, stop, hfirst, hlast, rfl⟩
  exact ⟨⟨id, address, _⟩, Request.data?_eq_some_iff.mpr ⟨hid, haddress, hwindow⟩,
    hasTimes_iff.mpr ⟨hcount, hstart, hstop⟩⟩

end Command

/-! ## Requests of a verb -/

namespace Request

/-- The verb of a request. -/
def verb : Request → Verb
  | version => .version
  | status _ _ => .status
  | menu _ _ => .menu
  | channels _ _ => .getChannels
  | records _ _ => .getMetadata
  | samples _ withLocation _ => if withLocation then .getScnl else .getScn
  | wave _ (.channel _) _ => .getScnlRaw
  | wave _ .idOnly _ => .getWaveRaw
  | helicorder _ _ => .getHelicorder
  | rsam _ _ _ => .getRsam

/-- The id that a request came with. -/
def id? : Request → Option String
  | version => none
  | status id _ | menu id _ | channels id _ | records id _ => some id
  | samples data _ _ | wave data _ _ | helicorder data _ | rsam data _ _ => some data.id

variable {c : Command} {request : Request}

/-- **A command of the right shape makes a request.** -/
theorem exists_of_fits {verb : Verb} (h : verb.Fits c) :
    ∃ request, ofCommand? c verb = some request := by
  -- Verb by verb: all that its reader takes from the command is there.
  cases verb with
  | version =>
    have hlength : c.length ≤ 2 := by
      have hcount : c.length = 1 ∨ c.length = 2 := h
      omega
    exact ⟨.version, if_pos hlength⟩
  | status =>
    have hcount : c.length = 2 ∨ c.length = 3 := h
    obtain ⟨id, hid⟩ := c.exists_id (by omega)
    exact ⟨_, status?_eq_some_iff.mpr ⟨id, hid, hcount, rfl⟩⟩
  | menu | getChannels =>
    have hcount : c.length = 2 ∨ c.length = 3 ∧ _ := h
    obtain ⟨id, hid⟩ := c.exists_id (by omega)
    rcases hcount with htwo | ⟨hthree, hword⟩
    · exact ⟨_, withOption?_eq_some_iff.mpr ⟨id, hid, .inl ⟨htwo, rfl⟩⟩⟩
    · exact ⟨_, withOption?_eq_some_iff.mpr ⟨id, hid, .inr ⟨hthree, hword, rfl⟩⟩⟩
  | getMetadata =>
    obtain ⟨hthree, hword⟩ := h
    obtain ⟨id, hid⟩ := c.exists_id (by omega)
    rcases hword with hword | hword
    · exact ⟨_, records?_eq_some_iff.mpr ⟨id, hid, hthree, .inl ⟨hword, rfl⟩⟩⟩
    · exact ⟨_, records?_eq_some_iff.mpr ⟨id, hid, hthree, .inr ⟨hword, rfl⟩⟩⟩
  | getScn =>
    obtain ⟨hcount, hstart, hstop⟩ := h
    obtain ⟨fill, hfill⟩ := c.exists_token 7 (by omega)
    obtain ⟨data, hdata, htimes⟩ : ∃ data, data? c false = some data ∧ c.hasTimes 8 5 = true :=
      Command.exists_data hcount (show 5 < 8 by decide) hstart hstop
    have hrequest : samples? c false = some (.samples data false fill) :=
      samples?_eq_some_iff.mpr ⟨data, fill, rfl, htimes, hdata, hfill⟩
    exact ⟨_, hrequest⟩
  | getScnl =>
    obtain ⟨hcount, hstart, hstop⟩ := h
    obtain ⟨fill, hfill⟩ := c.exists_token 8 (by omega)
    obtain ⟨data, hdata, htimes⟩ : ∃ data, data? c true = some data ∧ c.hasTimes 9 6 = true :=
      Command.exists_data hcount (show 6 < 9 by decide) hstart hstop
    have hrequest : samples? c true = some (.samples data true fill) :=
      samples?_eq_some_iff.mpr ⟨data, fill, rfl, htimes, hdata, hfill⟩
    exact ⟨_, hrequest⟩
  | getScnlRaw | getWaveRaw =>
    obtain ⟨hcount, hstart, hstop, hflag⟩ := h
    obtain ⟨compressed, hcompressed⟩ := Command.hasFlag_iff.mp hflag
    obtain ⟨data, hdata, htimes⟩ : ∃ data, data? c true = some data ∧ c.hasTimes 9 6 = true :=
      Command.exists_data hcount (show 6 < 9 by decide) hstart hstop
    exact ⟨_, wave?_eq_some_iff.mpr ⟨data, compressed, rfl, htimes, hdata, hcompressed⟩⟩
  | getHelicorder =>
    obtain ⟨hcount, hstart, hstop, hflag⟩ := h
    obtain ⟨compressed, hcompressed⟩ := Command.hasFlag_iff.mp hflag
    obtain ⟨data, hdata, htimes⟩ : ∃ data, data? c true = some data ∧ c.hasTimes 9 6 = true :=
      Command.exists_data hcount (show 6 < 9 by decide) hstart hstop
    exact ⟨_, helicorder?_eq_some_iff.mpr ⟨data, compressed, rfl, htimes, hdata, hcompressed⟩⟩
  | getRsam =>
    obtain ⟨hcount, hstart, hstop, hinteger, hflag⟩ := h
    obtain ⟨period, hperiod⟩ := Command.hasInteger_iff.mp hinteger
    obtain ⟨compressed, hcompressed⟩ := Command.hasFlag_iff.mp hflag
    obtain ⟨data, hdata, htimes⟩ : ∃ data, data? c true = some data ∧ c.hasTimes 10 6 = true :=
      Command.exists_data hcount (show 6 < 10 by decide) hstart hstop
    exact ⟨_, rsam?_eq_some_iff.mpr
      ⟨data, period, compressed, rfl, htimes, hdata, hperiod, hcompressed⟩⟩

/-- **A request comes only from a command of the right shape.** It is one of the command's verb, and
all requests but one for the version have the command's id. -/
theorem fits_of_ofCommand? {verb : Verb} (h : ofCommand? c verb = some request) :
    verb.Fits c ∧ request.verb = verb ∧
      (request = .version ∨ ∃ id, c.id? = some id ∧ request.id? = some id) := by
  have hid {withLocation : Bool} {data : DataRequest} (hdata : data? c withLocation = some data) :
      c.id? = some data.id := (data?_eq_some_iff.mp hdata).1
  -- Verb by verb: what its reader has taken from the command gives the shape.
  cases verb with
  | version =>
    obtain ⟨hlength, h⟩ := Option.ite_none_right_eq_some.mp h
    cases h
    have hpositive : 0 < c.length := Nat.succ_pos _
    exact ⟨show c.length = 1 ∨ c.length = 2 by omega, rfl, .inl rfl⟩
  | status =>
    obtain ⟨id, hid, hcount, rfl⟩ := status?_eq_some_iff.mp h
    exact ⟨hcount, rfl, .inr ⟨id, hid, rfl⟩⟩
  | menu | getChannels =>
    simp only [ofCommand?] at h
    obtain ⟨id, hid, ⟨htwo, rfl⟩ | ⟨hthree, hword, rfl⟩⟩ := withOption?_eq_some_iff.mp h
    · exact ⟨.inl htwo, rfl, .inr ⟨id, hid, rfl⟩⟩
    · exact ⟨.inr ⟨hthree, hword⟩, rfl, .inr ⟨id, hid, rfl⟩⟩
  | getMetadata =>
    obtain ⟨id, hid, hthree, ⟨hword, rfl⟩ | ⟨hword, rfl⟩⟩ := records?_eq_some_iff.mp h
    · exact ⟨⟨hthree, .inl hword⟩, rfl, .inr ⟨id, hid, rfl⟩⟩
    · exact ⟨⟨hthree, .inr hword⟩, rfl, .inr ⟨id, hid, rfl⟩⟩
  | getScn | getScnl =>
    simp only [ofCommand?] at h
    obtain ⟨data, fill, rfl, htimes, hdata, -⟩ := samples?_eq_some_iff.mp h
    exact ⟨Command.hasTimes_iff.mp htimes, rfl, .inr ⟨_, hid hdata, rfl⟩⟩
  | getScnlRaw | getWaveRaw =>
    simp only [ofCommand?] at h
    obtain ⟨data, compressed, rfl, htimes, hdata, hflag⟩ := wave?_eq_some_iff.mp h
    obtain ⟨hcount, hstart, hstop⟩ := Command.hasTimes_iff.mp htimes
    exact ⟨⟨hcount, hstart, hstop, Command.hasFlag_iff.mpr ⟨_, hflag⟩⟩, rfl, .inr ⟨_, hid hdata, rfl⟩⟩
  | getHelicorder =>
    obtain ⟨data, compressed, rfl, htimes, hdata, hflag⟩ := helicorder?_eq_some_iff.mp h
    obtain ⟨hcount, hstart, hstop⟩ := Command.hasTimes_iff.mp htimes
    exact ⟨⟨hcount, hstart, hstop, Command.hasFlag_iff.mpr ⟨_, hflag⟩⟩, rfl, .inr ⟨_, hid hdata, rfl⟩⟩
  | getRsam =>
    obtain ⟨data, period, compressed, rfl, htimes, hdata, hperiod, hflag⟩ := rsam?_eq_some_iff.mp h
    obtain ⟨hcount, hstart, hstop⟩ := Command.hasTimes_iff.mp htimes
    exact ⟨⟨hcount, hstart, hstop, Command.hasInteger_iff.mpr ⟨_, hperiod⟩,
      Command.hasFlag_iff.mpr ⟨_, hflag⟩⟩, rfl, .inr ⟨_, hid hdata, rfl⟩⟩

end Request

end Seismic
