import Seismic.Proofs.Asked
import Seismic.Proofs.Decoded

/-!
# Renderings — one wave in four forms

Four verbs give the wave of a window: as a line of samples with or without a location, or as a
binary reply with a long or a short header. They give the same wave.

* **`Data.samplesOf?_sampleLine`**: the samples of a line are read back, as long as the token for
  missing ones is not a number;
* **`OneAnswer`** is what the four verbs come to together;
* **`wave_verbs_render_one_answer`** says that they come to that on every server.
-/

namespace Seismic

/-- The tokens that a request gives and its reply repeats have no space in them. -/
structure DataRequest.SpaceFree (data : DataRequest) : Prop where
  id : Lacks ' ' data.id
  station : Lacks ' ' data.address.station
  channel : Lacks ' ' data.address.channel
  network : Lacks ' ' data.address.network
  location : Lacks ' ' data.address.locationText

/-! ## Lines as tokens -/

namespace Text

theorem singleton_space : String.singleton ' ' = " " := by decide

-- By induction on the tokens, each of which joins the line before it.
theorem join_append_spaced {first : List String} (h : first ≠ []) (texts : List String) :
    join ' ' first ++ String.join (texts.map fun text => " " ++ text) =
      join ' ' (first ++ texts) := by
  induction texts generalizing first with
  | nil => simp
  | cons text rest ih =>
    have hmore : first ++ [text] ≠ [] := List.append_ne_nil_of_left_ne_nil h _
    have hnext := ih hmore
    rw [join_concat ' ' h, List.append_assoc, List.singleton_append] at hnext
    rw [← hnext, List.map_cons, String.join_cons, singleton_space]
    simp only [String.append_assoc]

end Text

namespace Data

/-- The tokens of a header with the channel's id and address. -/
def headerTokens (data : DataRequest) (withLocation : Bool) (sid : Nat) : List String :=
  [data.id, Numeral.ofNat sid, data.address.station, data.address.channel, data.address.network] ++
    if withLocation then [data.address.locationText] else []

/-- A header is its tokens. -/
theorem header_eq_join (data : DataRequest) (withLocation : Bool) (sid : Nat) :
    header data (.channel withLocation) sid =
      Text.join ' ' (headerTokens data withLocation sid) := by
  unfold header headerTokens Address.wire
  cases withLocation with
  | false =>
    simp only [Bool.false_eq_true, if_false, List.append_nil, Text.join_cons_cons,
      Text.join_singleton, Text.singleton_space, String.append_assoc]
  | true =>
    simp only [if_true, List.cons_append, List.nil_append, Text.join_cons_cons,
      Text.join_singleton, Text.singleton_space, String.append_assoc]

/-- The tokens of a line of samples. -/
def sampleTokens (data : DataRequest) (withLocation : Bool) (sid : Nat) (fill : String)
    (wave : Segment Time) : List String :=
  headerTokens data withLocation sid ++ ["F", sampleType, wave.start.wireText, wave.rate.fixed] ++
    wave.samples.map (sampleText fill)

theorem sampleLine_eq_join (data : DataRequest) (withLocation : Bool) (sid : Nat) (fill : String)
    (wave : Segment Time) :
    sampleLine (header data (.channel withLocation) sid) fill wave =
      Text.join ' ' (sampleTokens data withLocation sid fill wave) := by
  have hheader : headerTokens data withLocation sid ≠ [] := List.cons_ne_nil _ _
  have hstart : headerTokens data withLocation sid ++
      ["F", sampleType, wave.start.wireText, wave.rate.fixed] ≠ [] :=
    List.append_ne_nil_of_left_ne_nil hheader _
  have hspaced := Text.join_append_spaced hstart (wave.samples.map (sampleText fill))
  rw [List.map_map] at hspaced
  unfold sampleLine sampleTokens
  rw [← hspaced, Text.join_append ' ' hheader (List.cons_ne_nil _ _), header_eq_join]
  have hletter : " F " = " " ++ ("F" ++ " ") := by decide
  simp only [Text.join_cons_cons, Text.join_singleton, Text.singleton_space, hletter,
    String.append_assoc, Function.comp_def]

/-! ## Reading samples -/

/-- The sample that a token stands for. -/
def sampleOf? (fill token : String) : Option Int32 :=
  if token = fill then some noData
  else (Numeral.intWithin? (-Nat.pow 2 31) (Nat.pow 2 31 - 1) token).map Int32.ofInt

/-- The samples in a line, which follow its header, the letter, the type, the start and the rate. -/
def samplesOf? (withLocation : Bool) (fill line : String) : Option (List Int32) :=
  ((Text.fields ' ' line).drop (if withLocation then 10 else 9)).mapM (sampleOf? fill)

/-- A sample is read back, missing or not. -/
theorem sampleOf?_sampleText {fill : String} (h : Numeral.int? fill.toList = none) (n : Int32) :
    sampleOf? fill (sampleText fill n) = some n := by
  unfold sampleText sampleOf?
  by_cases hmissing : n = noData
  · rw [if_pos hmissing, if_pos rfl, hmissing]
  · -- The token for missing samples is no number, so a number is not taken for one.
    have hfill : Numeral.ofInt n.toInt ≠ fill := by
      intro heq
      rw [← heq, Numeral.int?_ofInt] at h
      cases h
    have hlo := n.le_toInt
    have hhi := n.toInt_lt
    have hpow : ((Nat.pow 2 31 : Nat) : Int) = 2147483648 := rfl
    rw [if_neg hmissing, if_neg hfill, hpow, Numeral.intWithin?_ofInt (by omega) (by omega),
      Option.map_some, Int32.ofInt_toInt]

theorem lacks_space_of_mem_sampleTokens {data : DataRequest} {withLocation : Bool} {sid : Nat}
    {fill : String} {wave : Segment Time} (hdata : data.SpaceFree)
    (hfill : Lacks ' ' fill) :
    ∀ token ∈ sampleTokens data withLocation sid fill wave, Lacks ' ' token := by
  have hnumbers : Numeral.inNumbers ' ' = false := by decide
  -- Tokens come from the request, from numbers, or are fixed words; none of them has a space.
  have hlocation : ∀ token ∈ (if withLocation then [data.address.locationText] else []),
      Lacks ' ' token := by
    cases withLocation with
    | false => exact nofun
    | true => exact List.forall_mem_singleton.mpr hdata.location
  have hsamples : ∀ token ∈ wave.samples.map (sampleText fill), Lacks ' ' token := by
    rw [List.forall_mem_map]
    intro sample _
    unfold sampleText
    split
    · exact hfill
    · exact .ofInt hnumbers _
  unfold sampleTokens headerTokens
  simp only [List.forall_mem_append, List.forall_mem_cons]
  refine ⟨⟨⟨⟨hdata.id, .ofNat hnumbers _, hdata.station, hdata.channel, hdata.network, nofun⟩,
    hlocation⟩, ?_, ?_, .fixed hnumbers _, .fixed hnumbers _, nofun⟩, hsamples⟩
  · decide
  · decide

theorem fields_sampleLine {data : DataRequest} {withLocation : Bool} {fill : String}
    (hdata : data.SpaceFree) (hfill : Lacks ' ' fill) (sid : Nat)
    (wave : Segment Time) :
    Text.fields ' ' (sampleLine (header data (.channel withLocation) sid) fill wave) =
      sampleTokens data withLocation sid fill wave := by
  rw [sampleLine_eq_join]
  exact Text.fields_join (List.cons_ne_nil _ _) (lacks_space_of_mem_sampleTokens hdata hfill)

/-- **The samples of a line are read back.** -/
theorem samplesOf?_sampleLine {data : DataRequest} {withLocation : Bool} {fill : String}
    (hdata : data.SpaceFree) (hfill : Lacks ' ' fill)
    (hnumeral : Numeral.int? fill.toList = none) (sid : Nat) (wave : Segment Time) :
    samplesOf? withLocation fill (sampleLine (header data (.channel withLocation) sid) fill wave) =
      some wave.samples := by
  have hdrop : (sampleTokens data withLocation sid fill wave).drop
      (if withLocation then 10 else 9) = wave.samples.map (sampleText fill) := by
    cases withLocation with
    | false => rfl
    | true => rfl
  have hread (samples : List Int32) :
      (samples.map (sampleText fill)).mapM (sampleOf? fill) = some samples := by
    induction samples with
    | nil => rfl
    | cons n rest ih =>
      rw [List.map_cons, List.mapM_cons, sampleOf?_sampleText hnumeral, ih]
      rfl
  unfold samplesOf?
  rw [fields_sampleLine hdata hfill, hdrop, hread]

/-- Without the location it is the same tokens but for the sixth. -/
theorem sampleTokens_false (data : DataRequest) (sid : Nat) (fill : String) (wave : Segment Time) :
    (sampleTokens data true sid fill wave)[5]? = some data.address.locationText ∧
      sampleTokens data false sid fill wave = (sampleTokens data true sid fill wave).eraseIdx 5 :=
  ⟨rfl, rfl⟩

end Data

/-! ## One answer -/

/-- **What requests for the wave of a target come to**, with any lines that ask for it. If the server
does not let requests through to its archive, they all halt for that reason. Otherwise they all get
the same failure after their own header, because the window cannot be served or because there is no
wave in it; or they all get the wave that there is. A line of samples without the location is the one
with it less one token, and a payload is the same with either header, which does not depend on
compression. The number of samples that a payload announces is a 32-bit number. -/
inductive OneAnswer [Compressor] (inflate : Bytes → Option Bytes) (s : Server) (t : Target)
    (fill : String) : Prop where
  | halted (halt : Halt) (access : s.access = .error halt)
      (all : ∀ ask line, Asked t ask line → (s.answer line).1 = .ofResult (.error halt))
  | failed (access : s.access = .ok ()) (found : Data.Located) (f : Failure)
      (located : Data.located s t.data = found) (window : found.window = .error f)
      (all : ∀ ask line, ask.isWave = true → Asked t ask line →
        (s.answer line).1 = .reply (Data.failure t.data ask.framing found.sid f))
  | missing (access : s.access = .ok ()) (sid : Nat) (w : Span Time)
      (located : Data.located s t.data = ⟨sid, .ok w⟩)
      (absent : Data.foundWave s.archive sid w = none)
      (all : ∀ ask line, ask.isWave = true → Asked t ask line →
        (s.answer line).1 = .reply (Data.failure t.data ask.framing sid .gap))
  | found (access : s.access = .ok ()) (sid : Nat) (w : Span Time)
      (located : Data.located s t.data = ⟨sid, .ok w⟩) (wave : Segment Time)
      (present : Data.foundWave s.archive sid w = some wave)
      (text header : Bool → String) (payload : Bool → Payload) (announced : Int32)
      (samples : ∀ withLocation line, Asked t (.samples withLocation fill) line →
        (s.answer line).1 = .reply (.line (text withLocation)) ∧
          Data.samplesOf? withLocation fill (text withLocation) = some wave.samples)
      (without : ∀ line, Asked t (.samples false fill) line →
        (Text.fields ' ' (text true))[5]? = some Address.placeholder ∧
          Text.fields ' ' (text false) = (Text.fields ' ' (text true)).eraseIdx 5)
      (waves : ∀ withHeader compressed line, Asked t (.wave withHeader compressed) line →
        (s.answer line).1 = .reply (.binary (header withHeader) (payload compressed)))
      (plain : Layout.wave? (payload false).bytes = some (wave, announced))
      (count : announced = Int32.ofNat wave.length)
      (fits : (wave.length : Int) ≤ Int32.maxValue.toInt → announced.toInt = wave.length)
      (compressed : inflate (payload true).bytes = some (payload false).bytes)

theorem Address.locationText_of (station channel network location : String) :
    (of station channel network (some location)).locationText =
      if isBlank location then placeholder else location := by
  rw [of_eq_normalized, normalized_eq]
  unfold locationText
  cases h : isBlank location with
  | false => simp [Option.filter, h]
  | true => simp [Option.filter, h]

namespace Asked

variable {t : Target} {ask : Ask} {line : String}

theorem spaceFree (h : Asked t ask line) : t.data.SpaceFree := by
  have hcode (token : String) (htoken : token ∈ [t.id, t.station, t.channel, t.network]) :
      Lacks ' ' token := by
    apply h.lacks_space
    unfold Target.tokens
    rw [List.append_assoc, List.append_assoc]
    exact List.mem_append_left _ htoken
  refine ⟨hcode t.id ?_, hcode t.station ?_, hcode t.channel ?_, hcode t.network ?_, ?_⟩
  · simp
  · simp
  · simp
  · simp
  · unfold Target.data
    rw [Address.locationText_of]
    cases hblank : Address.isBlank t.location with
    | true =>
      rw [if_pos rfl]
      decide
    | false =>
      -- A location that is one has come with the line.
      have hgiven : ask.withLocation = true := by
        rcases h.named with hgiven | hnone
        · exact hgiven
        · rw [hblank] at hnone
          cases hnone
      apply h.lacks_space
      simp [Target.tokens, hgiven]

theorem lacks_space_fill {withLocation : Bool} {fill : String}
    (h : Asked t (.samples withLocation fill) line) : Lacks ' ' fill :=
  h.lacks_space (List.mem_append_right _ List.mem_cons_self)

theorem locationText_of_samples {fill : String} (h : Asked t (.samples false fill) line) :
    t.data.address.locationText = Address.placeholder := by
  have hblank : Address.isBlank t.location = true := by
    rcases h.named with hgiven | hblank
    · cases hgiven
    · exact hblank
  unfold Target.data
  rw [Address.locationText_of, if_pos hblank]

end Asked

/-- If there is a wave, all lines are answered with it. -/
theorem oneAnswer_of_wave [Compressor] {s : Server} {t : Target} {fill : String} {sid : Nat}
    {w : Span Time} {wave : Segment Time} {inflate : Bytes → Option Bytes} (haccess : s.access = .ok ())
    (hlocated : Data.located s t.data = ⟨sid, .ok w⟩)
    (hwave : Data.foundWave s.archive sid w = some wave)
    (hfill : Numeral.int? fill.toList = none)
    (hinflate : ∀ raw, inflate (Compressor.deflate raw) = some raw) : OneAnswer inflate s t fill := by
  -- What the four replies are made of does not depend on the line.
  let text (withLocation : Bool) :=
    Data.sampleLine (Data.header t.data (.channel withLocation) sid) fill wave
  let header (withHeader : Bool) :=
    Data.waveHeader t.data (if withHeader then .channel true else .idOnly) sid wave
  let payload (compressed : Bool) : Payload := ⟨Layout.wave wave, compressed⟩
  refine .found haccess sid w hlocated wave hwave text header payload (Int32.ofNat wave.length)
    ?samples ?without ?waves (Layout.wave?_wave wave) rfl ?fits (hinflate _)
  case samples =>
    intro withLocation line h
    constructor
    · apply h.answer_of_product haccess hlocated
      rw [Ask.product?, hwave, Option.map_some]
      rfl
    · exact Data.samplesOf?_sampleLine h.spaceFree h.lacks_space_fill hfill _ wave
  case without =>
    intro line h
    have hfields (withLocation : Bool) : Text.fields ' ' (text withLocation) = _ :=
      Data.fields_sampleLine h.spaceFree h.lacks_space_fill sid wave
    have htokens := Data.sampleTokens_false t.data sid fill wave
    rw [h.locationText_of_samples] at htokens
    rw [hfields, hfields]
    exact htokens
  case waves =>
    intro withHeader compressed line h
    apply h.answer_of_product haccess hlocated
    rw [Ask.product?, hwave, Option.map_some]
    rfl
  case fits =>
    intro hshort
    have hmax : Int32.maxValue.toInt = 2147483647 := by decide
    apply Int32.toInt_ofNat_of_lt
    omega

/-- **The wave verbs render one answer.** Whatever the server holds and whether or not it can be
reached, all lines that ask for the wave of a channel in a window come to the same: the same
failure, or the same samples. Payloads may be compressed in any way, and `inflate` may be anything
that undoes it. -/
theorem wave_verbs_render_one_answer [Compressor] (s : Server) (t : Target) {fill : String}
    (hfill : Numeral.int? fill.toList = none) {inflate : Bytes → Option Bytes}
    (hinflate : ∀ raw, inflate (Compressor.deflate raw) = some raw) : OneAnswer inflate s t fill := by
  cases haccess : s.access with
  | error halt => exact .halted halt haccess fun ask line h => h.answer_of_halt haccess
  | ok _ =>
    rcases hlocated : Data.located s t.data with ⟨sid, f | w⟩
    · exact .failed haccess ⟨sid, .error f⟩ f hlocated rfl fun ask line _ h =>
        h.answer_of_unresolved haccess hlocated
    · cases hwave : Data.foundWave s.archive sid w with
      | some wave => exact oneAnswer_of_wave haccess hlocated hwave hfill hinflate
      | none =>
        refine .missing haccess sid w hlocated hwave fun ask line hask h => ?_
        exact h.answer_of_gap haccess hlocated (Ask.product?_of_not_found hwave hask)

/-- Three seconds of a channel without a location, the second of them missing. -/
def threeSeconds : Server where
  archive :=
    { channels := [⟨{ address := ⟨"AKV", "EHZ", "AV", none⟩ }, [⟨0, 1, [7, noData, -7]⟩]⟩] }
  clock := ⟨⟨946728100, 0⟩, 0⟩

def threeSecondsTarget : Target where
  id := "5"
  station := "AKV"
  channel := "EHZ"
  network := "AV"
  location := "--"
  start := "946728000"
  stop := "946728002"
  window := ⟨0, 2⟩
  start_eq := by decide +kernel
  stop_eq := by decide +kernel

/-- The four verbs ask for the same seconds, and an inflater of stored blocks reads them. -/
theorem threeSeconds_rendered :
    Asked threeSecondsTarget (.samples false "x") "GETSCN: 5 AKV EHZ AV 946728000 946728002 x" ∧
    Asked threeSecondsTarget (.samples true "x") "GETSCNL: 5 AKV EHZ AV -- 946728000 946728002 x" ∧
    Asked threeSecondsTarget (.wave true false)
      "GETSCNLRAW: 5 AKV EHZ AV -- 946728000 946728002 0" ∧
    Asked threeSecondsTarget (.wave false true)
      "GETWAVERAW: 5 AKV EHZ AV -- 946728000 946728002 1" ∧
    OneAnswer Zlib.unpack? threeSeconds threeSecondsTarget "x" :=
  ⟨⟨by decide +kernel, .inr rfl⟩, ⟨by decide +kernel, .inl rfl⟩, ⟨by decide +kernel, .inl rfl⟩,
    ⟨by decide +kernel, .inl rfl⟩,
    wave_verbs_render_one_answer threeSeconds threeSecondsTarget (by decide) Zlib.unpack?_pack⟩

example :
    (threeSeconds.answer "GETSCN: 5 AKV EHZ AV 946728000 946728002 x").1 =
      .reply (.line "5 1 AKV EHZ AV F s4 946728000 1 7 x -7") := by
  decide +kernel

end Seismic
