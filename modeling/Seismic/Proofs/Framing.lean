import Seismic.Proofs.OneLine
import Seismic.Proofs.Replies
import Seismic.Reply.Zlib

/-!
# Framing — which replies come apart as they were put together

A client reads a line, and after the header of a block as many lines as the header announces. So a
reply is *framed* if none of its texts has a newline in it. Requests cannot spoil a reply: all their
tokens are on one line. Archives can, since menus and channel lists show some of their texts as they
are.

* **`Reply.lines_bytes`**: a framed block is cut into its header and exactly the announced lines;
* **`Request.tame_of_ofCommand?`**: what a request repeats from its line is on one line;
* **`framed_iff_plainTexts`**: a reply is framed if and only if the texts of the archive that it
  shows as they are have no newline in them.
-/

namespace Seismic

/-! ## Framed replies -/

namespace Reply

/-- No text of the reply has a newline in it. -/
def Framed : Reply → Prop
  | line text => OneLine text
  | block header lines => OneLine header ∧ ∀ line ∈ lines, OneLine line
  | binary header _ => OneLine header

instance : DecidablePred Framed
  | line text => inferInstanceAs (Decidable (OneLine text))
  | block header lines =>
    inferInstanceAs (Decidable (OneLine header ∧ ∀ line ∈ lines, OneLine line))
  | binary header _ => inferInstanceAs (Decidable (OneLine header))

/-- Only a newline is encoded with the byte of a newline. -/
theorem newline_not_mem_utf8EncodeChar {c : Char} (h : c ≠ '\n') :
    newline ∉ String.utf8EncodeChar c := by
  have hvalue : c.val.toNat ≠ 10 := fun hten => h (Char.ext (UInt32.toNat.inj hten))
  have hbyte {n : Nat} (hn : newline = UInt8.ofNat n) : n % 256 = 10 := by
    have hnat : (10 : UInt8).toNat = (UInt8.ofNat n).toNat := congrArg UInt8.toNat hn
    rw [UInt8.toNat_ofNat'] at hnat
    exact hnat.symm
  intro hmem
  unfold String.utf8EncodeChar at hmem
  simp only at hmem
  -- A newline could only be the one byte of a short character; all others are above 127.
  split at hmem
  · have hten := hbyte (List.mem_singleton.mp hmem)
    omega
  split at hmem
  · simp only [List.mem_cons, List.not_mem_nil, or_false] at hmem
    rcases hmem with hmem | hmem
    all_goals
      have hten := hbyte hmem
      omega
  split at hmem
  · simp only [List.mem_cons, List.not_mem_nil, or_false] at hmem
    rcases hmem with hmem | hmem | hmem
    all_goals
      have hten := hbyte hmem
      omega
  · simp only [List.mem_cons, List.not_mem_nil, or_false] at hmem
    rcases hmem with hmem | hmem | hmem | hmem
    all_goals
      have hten := hbyte hmem
      omega

/-- A text on one line has no newline among its bytes. -/
theorem newline_not_mem_encode {text : String} (h : OneLine text) : newline ∉ Utf8.encode text := by
  unfold Utf8.encode
  rw [List.mem_flatMap]
  rintro ⟨c, hc, hmem⟩
  exact newline_not_mem_utf8EncodeChar (fun heq => h (heq ▸ hc)) hmem

/-- **Texts that are each on one line are read back line by line.** -/
theorem lines_flatMap_lineBytes {texts : List String} (h : ∀ text ∈ texts, OneLine text) :
    Stream.lines (texts.flatMap lineBytes) = texts.map Utf8.encode := by
  induction texts with
  | nil => rfl
  | cons text rest ih =>
    obtain ⟨hfirst, hrest⟩ := List.forall_mem_cons.mp h
    -- The first text is the first line, since its newline is the first one.
    have hbytes : (text :: rest).flatMap lineBytes =
        Utf8.encode text ++ 10 :: rest.flatMap lineBytes := by
      rw [List.flatMap_cons, lineBytes, List.append_assoc]
      rfl
    rw [hbytes, Stream.lines_append (newline_not_mem_encode hfirst), ih hrest, List.map_cons]

/-- The announced number of lines follows the header of a framed block, and nothing else. -/
theorem lines_bytes [Compressor] {header : String} {lines : List String}
    (h : (block header lines).Framed) :
    Stream.lines (block header lines).bytes =
      Utf8.encode (header ++ " " ++ Numeral.ofNat lines.length) :: lines.map Utf8.encode := by
  obtain ⟨hheader, hlines⟩ := h
  have hannounced : OneLine (header ++ " " ++ Numeral.ofNat lines.length) := by
    rw [OneLine.append, OneLine.append]
    exact ⟨⟨hheader, by decide⟩, OneLine.ofNat _⟩
  exact lines_flatMap_lineBytes (List.forall_mem_cons.mpr ⟨hannounced, hlines⟩)

end Reply

/-! ## Requests

What a request repeats of its line comes from the line's tokens. -/

namespace Address

/-- The codes of an address that a reply writes, with or without the location. -/
def texts (a : Address) (withLocation : Bool) : List String :=
  [a.station, a.channel, a.network] ++ if withLocation then a.location.toList else []

/-- The codes between spaces are on one line if each of them is. -/
theorem oneLine_wire {a : Address} {withLocation : Bool} :
    OneLine (a.wire withLocation) ↔ ∀ text ∈ a.texts withLocation, OneLine text := by
  have hlocation : OneLine a.locationText ↔ ∀ text ∈ a.location, OneLine text := by
    unfold locationText
    cases a.location with
    | none => exact ⟨nofun, fun _ => by decide⟩
    | some location => exact ⟨fun h _ htext => Option.some.inj htext ▸ h, fun h => h location rfl⟩
  cases withLocation with
  | false => simp +decide [wire, texts, and_assoc]
  | true => simp +decide [wire, texts, hlocation, and_assoc]

/-- And so is the archive code. -/
theorem oneLine_code {a : Address} : OneLine a.code ↔ ∀ text ∈ a.texts true, OneLine text := by
  unfold code texts
  cases a.location with
  | none => simp +decide [and_assoc]
  | some location => simp +decide [and_assoc]

/-- The codes of an address are tokens, but for a location that is left out. -/
theorem oneLine_of {station channel network : String} {location : Option String}
    (hstation : OneLine station) (hchannel : OneLine channel) (hnetwork : OneLine network)
    (hlocation : ∀ text ∈ location, OneLine text) :
    ∀ text ∈ (Address.of station channel network location).texts true, OneLine text := by
  intro text htext
  simp only [texts, Address.of, if_true, List.mem_append, List.mem_cons,
    List.not_mem_nil, or_false, Option.mem_toList] at htext
  rcases htext with (rfl | rfl | rfl) | hfiltered
  · exact hstation
  · exact hchannel
  · exact hnetwork
  · exact hlocation text (Option.mem_filter_iff.mp hfiltered).1

end Address

/-- What a request for data repeats is on one line. -/
def DataRequest.Tame (data : DataRequest) : Prop :=
  OneLine data.id ∧ ∀ text ∈ data.address.texts true, OneLine text

/-- What a request repeats is on one line. -/
def Request.Tame : Request → Prop
  | .version => True
  | .status id _ | .menu id _ | .channels id _ | .records id _ => OneLine id
  | .samples data _ fill => data.Tame ∧ OneLine fill
  | .wave data _ _ | .helicorder data _ | .rsam data _ _ => data.Tame

section Tokens

variable {c : Command} (htokens : ∀ token ∈ c.tokens, OneLine token)

include htokens

theorem Command.oneLine_of_token? {index : Nat} {token : String}
    (h : c.token? index = some token) : OneLine token :=
  htokens token (List.mem_of_getElem? h)

/-- A request for data repeats its id and the codes of its address. -/
theorem Request.tame_of_data? {withLocation : Bool} {data : DataRequest}
    (h : Request.data? c withLocation = some data) : data.Tame := by
  obtain ⟨hid, haddress, _⟩ := Request.data?_eq_some_iff.mp h
  obtain ⟨station, channel, network, hstation, hchannel, hnetwork, hrest⟩ :=
    Command.address?_eq_some_iff.mp haddress
  refine ⟨Command.oneLine_of_token? htokens hid, ?_⟩
  have hof {location : Option String} (hlocation : ∀ text ∈ location, OneLine text) :=
    Address.oneLine_of (Command.oneLine_of_token? htokens hstation)
      (Command.oneLine_of_token? htokens hchannel) (Command.oneLine_of_token? htokens hnetwork)
      hlocation
  cases withLocation with
  | true =>
    obtain ⟨location, hlocation, heq⟩ := hrest
    rw [heq]
    exact hof fun text htext =>
      Option.some.inj htext ▸ Command.oneLine_of_token? htokens hlocation
  | false =>
    have heq : data.address = .ofThree station channel network := hrest
    rw [heq]
    exact hof nofun

/-- **A request cannot spoil its reply.** -/
theorem Request.tame_of_ofCommand? {verb : Verb} {request : Request}
    (h : Request.ofCommand? c verb = some request) : request.Tame := by
  -- By the verb. The lemma on its reader names the tokens that the request keeps; times and flags
  -- are not repeated.
  cases verb with
  | version =>
    obtain ⟨_, h⟩ := Option.ite_none_right_eq_some.mp h
    cases h
    trivial
  | status =>
    obtain ⟨id, hid, _, rfl⟩ := Request.status?_eq_some_iff.mp h
    exact Command.oneLine_of_token? htokens hid
  | menu | getChannels =>
    simp only [Request.ofCommand?] at h
    obtain ⟨id, hid, ⟨_, rfl⟩ | ⟨_, _, rfl⟩⟩ := Request.withOption?_eq_some_iff.mp h
    · exact Command.oneLine_of_token? htokens hid
    · exact Command.oneLine_of_token? htokens hid
  | getMetadata =>
    obtain ⟨id, hid, _, ⟨_, rfl⟩ | ⟨_, rfl⟩⟩ := Request.records?_eq_some_iff.mp h
    · exact Command.oneLine_of_token? htokens hid
    · exact Command.oneLine_of_token? htokens hid
  | getScn | getScnl =>
    simp only [Request.ofCommand?] at h
    obtain ⟨_, _, rfl, _, hdata, hfill⟩ := Request.samples?_eq_some_iff.mp h
    exact ⟨Request.tame_of_data? htokens hdata, Command.oneLine_of_token? htokens hfill⟩
  | getScnlRaw | getWaveRaw =>
    simp only [Request.ofCommand?] at h
    obtain ⟨_, _, rfl, _, hdata, _⟩ := Request.wave?_eq_some_iff.mp h
    exact Request.tame_of_data? htokens hdata
  | getHelicorder =>
    obtain ⟨_, _, rfl, _, hdata, _⟩ := Request.helicorder?_eq_some_iff.mp h
    exact Request.tame_of_data? htokens hdata
  | getRsam =>
    obtain ⟨_, _, _, rfl, _, hdata, _⟩ := Request.rsam?_eq_some_iff.mp h
    exact Request.tame_of_data? htokens hdata

end Tokens

/-! ## Texts shown as they are -/

/-- The texts of a channel that a channel list shows as they are. -/
def Listing.plainTexts (l : Listing) (verbose : Bool) : List String :=
  l.channel.address.texts true ++ l.channel.groups ++
    if verbose then l.channel.otherName.toList ++ l.channel.unit.toList else []

/-- The texts of the archive that the reply to a request shows as they are: those of the channels in
a menu and in a channel list. Records of metadata are escaped. -/
def Request.plainTexts (s : Server) : Request → List String
  | .menu _ withLocation =>
    (Listings.servable s.policy s.clock.now (s.seen .brief)).flatMap fun entry =>
      entry.1.channel.address.texts withLocation
  | .channels _ verbose => (s.seen .full).flatMap (·.plainTexts verbose)
  | _ => []

/-- The texts of the archive that the answer to a line shows as they are. -/
def Server.plainTexts (s : Server) (line : String) : List String :=
  match Reading.ofLine line with
  | .wellFormed request => request.plainTexts s
  | _ => []

namespace Listings

/-- The fields of metadata are escaped. -/
theorem oneLine_of_mem_metadataFields {metadata : Metadata} {field : String}
    (h : field ∈ metadataFields metadata) : OneLine field := by
  obtain ⟨_, _, rfl⟩ := List.mem_map.mp h
  exact OneLine.pair _ _

/-- Of a menu entry only the address is a text of the archive. -/
theorem oneLine_menuEntry {withLocation : Bool} {entry : Listing × Span Time} :
    OneLine (menuEntry withLocation entry) ↔
      ∀ text ∈ entry.1.channel.address.texts withLocation, OneLine text := by
  simp +decide [menuEntry, Address.oneLine_wire]

/-- **A menu is framed exactly if the addresses in it are.** -/
theorem framed_menu_iff {id : String} (hid : OneLine id) (withLocation : Bool) (s : Server) :
    ((Request.menu id withLocation).reply s).Framed ↔
      ∀ text ∈ (Request.menu id withLocation).plainTexts s, OneLine text := by
  simp only [Request.reply, Reply.Framed, menuLine, menuOrder, OneLine.append, OneLine.join, hid,
    true_and, List.forall_mem_map, List.mem_mergeSort, oneLine_menuEntry, Request.plainTexts,
    List.forall_mem_flatMap]

/-- **A line of a channel list is one line exactly if the texts are that it shows as they are.** -/
theorem oneLine_channelLine {verbose : Bool} {instrument : Option Instrument}
    {span : Option (Span Time)} {l : Listing} :
    OneLine (channelLine verbose instrument span l) ↔
      ∀ text ∈ l.plainTexts verbose, OneLine text := by
  have hempty : OneLine "" := by decide
  have hshown (f : Span Time → Time) : OneLine ((span.map fun s => (f s).wireText).getD "") := by
    cases span with
    | none => exact hempty
    | some span => exact OneLine.wireText _
  have hplaced (f : Instrument → Binary64) :
      OneLine ((instrument.map fun i => (f i).fixed).getD "") := by
    cases instrument with
    | none => exact hempty
    | some i => exact OneLine.fixed _
  have hknown (text : Option String) :
      OneLine (text.getD "") ↔ ∀ t ∈ text.toList, OneLine t := by
    cases text with
    | none => simp [hempty]
    | some text => simp
  have hmetadata : OneLine (Escape.record (metadataFields l.channel.metadata)) := by
    rw [OneLine.record]
    exact fun field hfield => oneLine_of_mem_metadataFields hfield
  have hgroups : OneLine (Text.join '|' l.channel.groups) ↔
      ∀ text ∈ l.channel.groups, OneLine text := OneLine.fields (by decide)
  -- All other fields are numbers or escaped, so these texts decide.
  unfold channelLine
  rw [OneLine.fields (by decide)]
  cases verbose with
  | false =>
    simp [Listing.plainTexts, hshown, hplaced, hgroups, Address.oneLine_code, or_imp, forall_and]
  | true =>
    simp [Listing.plainTexts, hshown, hplaced, hgroups, hknown, hmetadata, Address.oneLine_code,
      or_imp, forall_and]

/-- **A channel list is framed exactly if each of its lines is.** -/
theorem framed_channels_iff {id : String} (hid : OneLine id) (verbose : Bool) (s : Server) :
    ((Request.channels id verbose).reply s).Framed ↔
      ∀ text ∈ (Request.channels id verbose).plainTexts s, OneLine text := by
  simp only [Request.reply, Reply.Framed, channelLines, hid, true_and, List.forall_mem_map,
    oneLine_channelLine, Request.plainTexts, List.forall_mem_flatMap]

/-- Everything in a record is a number or escaped. -/
theorem oneLine_instrumentRecord (i : Instrument) : OneLine (instrumentRecord i) := by
  have hmetadata : ∀ field ∈ metadataFields i.metadata, OneLine field :=
    fun _ => oneLine_of_mem_metadataFields
  simpa [instrumentRecord, or_imp, forall_and] using hmetadata

theorem oneLine_channelRecord (l : Listing) : OneLine (channelRecord l) := by
  have hmetadata : ∀ field ∈ metadataFields l.channel.metadata, OneLine field :=
    fun _ => oneLine_of_mem_metadataFields
  simpa [channelRecord, or_imp, forall_and] using hmetadata

end Listings

/-- The lines of a status are words and numbers. -/
theorem Status.oneLine_of_mem_lines {s : Server} {threshold : Time} {channels : List Listing}
    {line : String} (h : line ∈ lines s threshold channels) : OneLine line := by
  have hage : OneLine (((median (ages s.policy s.clock.now threshold channels)).map
      Binary64.fixed).getD "n/a") := by
    cases median (ages s.policy s.clock.now threshold channels) with
    | none => decide
    | some age => exact OneLine.fixed age
  revert line
  simp +decide [lines, hage]

/-! ## Data -/

namespace Data

variable {data : DataRequest}

/-- A header repeats the request and has no text of the archive. -/
theorem oneLine_header (hdata : data.Tame) (framing : Framing) (sid : Nat) :
    OneLine (header data framing sid) := by
  cases framing with
  | idOnly => exact hdata.1
  | channel withLocation =>
    have haddress : OneLine (data.address.wire withLocation) := by
      -- Without the location fewer codes are written than the request has.
      rw [Address.oneLine_wire]
      intro text htext
      refine hdata.2 text ?_
      cases withLocation with
      | true => exact htext
      | false => exact List.mem_append_left _ (by simpa [Address.texts] using htext)
    simp +decide [header, hdata.1, haddress]

theorem oneLine_failure (f : Failure) : OneLine f.text := by
  have hcode (t : Time) : OneLine (Failure.tooEarly t).code ∧ OneLine (Failure.tooLate t).code :=
    ⟨show OneLine "FL" by decide, show OneLine "FR" by decide⟩
  cases f with
  | noChannel | badRange | gap => decide
  | tooEarly t | tooLate t => simp +decide [Failure.text, hcode t]

theorem framed_failure (hdata : data.Tame) (framing : Framing) (sid : Nat) (f : Failure) :
    (failure data framing sid f).Framed := by
  have hheader := oneLine_header hdata framing sid
  have hid := hdata.1
  have htext := oneLine_failure f
  unfold failure Reply.failure
  split
  · simp +decide [Reply.Framed, hheader, hid]
  · simp +decide [Reply.Framed, hheader, htext]

/-- **Failures are framed, so a reply to a request for data is if a reply with data is.** -/
theorem framed_replyTo {β : Type} {framing : Framing} {found : Located}
    {find : Nat → Span Time → Option β} {reply : Nat → β → Reply} (hdata : data.Tame)
    (hreply : ∀ sid product, (reply sid product).Framed) :
    (replyTo data framing found find reply).Framed :=
  replyTo_cases (framed_failure hdata framing found.sid) (hreply found.sid)

/-- A missing sample is written as the fill value, which is a token of the request. -/
theorem oneLine_sampleLine {header fill : String} (hheader : OneLine header) (hfill : OneLine fill)
    (wave : Segment Time) : OneLine (sampleLine header fill wave) := by
  have hsample (sample : Int32) : OneLine (sampleText fill sample) := by
    unfold sampleText
    split
    · exact hfill
    · exact OneLine.ofInt _
  simp +decide [sampleLine, hheader, hsample]

theorem oneLine_waveHeader (hdata : data.Tame) (framing : Framing) (sid : Nat)
    (wave : Segment Time) : OneLine (waveHeader data framing sid wave) := by
  have hheader := oneLine_header hdata framing sid
  unfold waveHeader
  cases framing with
  | channel withLocation => simp +decide [hheader]
  | idOnly => exact hheader

end Data

/-! ## Answers -/

/-- What a request line comes to is tame. -/
def Reading.Tame : Reading → Prop
  | .empty => True
  | .unsupported keyword => OneLine keyword
  | .malformed _ id => ∀ text ∈ id, OneLine text
  | .wellFormed request => request.Tame

/-- **A line yields only tokens that are on one line.** -/
theorem Reading.tame_ofLine {line : String} (hline : OneLine line) :
    (Reading.ofLine line).Tame := by
  unfold Reading.ofLine
  cases hparse : Command.parse? line with
  | none => trivial
  | some c =>
    have htokens : ∀ token ∈ c.tokens, OneLine token := fun token htoken =>
      Command.oneLine_of_mem_tokens hline hparse htoken
    simp only
    split
    · exact htokens c.keyword List.mem_cons_self
    split
    · exact fun text htext => Command.oneLine_of_token? htokens htext
    · next request hrequest => exact Request.tame_of_ofCommand? htokens hrequest

/-- What a reply repeats of its request is on one line, so the texts of the archive decide. -/
theorem Request.framed_reply_iff {request : Request} (htame : request.Tame) (s : Server) :
    (request.reply s).Framed ↔ ∀ text ∈ request.plainTexts s, OneLine text := by
  -- Most verbs show no text of the archive as it is, and their replies are always framed.
  cases request with
  | version =>
    refine iff_of_true ?_ (List.forall_mem_nil _)
    show OneLine _
    decide
  | status id threshold =>
    exact iff_of_true ⟨htame, fun _ => Status.oneLine_of_mem_lines⟩ (List.forall_mem_nil _)
  | menu id withLocation => exact Listings.framed_menu_iff htame withLocation s
  | channels id verbose => exact Listings.framed_channels_iff htame verbose s
  | records id kind =>
    refine iff_of_true ?_ (List.forall_mem_nil _)
    cases kind with
    | instrument =>
      exact ⟨htame, List.forall_mem_map.mpr fun i _ => Listings.oneLine_instrumentRecord i⟩
    | channel => exact ⟨htame, List.forall_mem_map.mpr fun l _ => Listings.oneLine_channelRecord l⟩
  -- Payloads announce their length, so of a reply with data only the line or the header counts.
  | samples data withLocation fill =>
    unfold Request.reply
    refine iff_of_true (Data.framed_replyTo htame.1 fun sid wave => ?_) (List.forall_mem_nil _)
    exact Data.oneLine_sampleLine (Data.oneLine_header htame.1 _ sid) htame.2 wave
  | wave data framing compressed =>
    unfold Request.reply
    refine iff_of_true (Data.framed_replyTo htame fun sid wave => ?_) (List.forall_mem_nil _)
    exact Data.oneLine_waveHeader htame framing sid wave
  | helicorder data compressed | rsam data period compressed =>
    unfold Request.reply
    refine iff_of_true (Data.framed_replyTo htame fun sid _ => ?_) (List.forall_mem_nil _)
    exact Data.oneLine_header htame .idOnly sid

/-- **The same for whatever a line comes to**, error replies included. -/
theorem Server.framed_iff_of_oneLine {s : Server} {line : String} (hline : OneLine line)
    {r : Reply} (h : (s.answer line).1 = .reply r) :
    r.Framed ↔ ∀ text ∈ s.plainTexts line, OneLine text := by
  have htame := Reading.tame_ofLine hline
  unfold Server.plainTexts
  -- Error replies show no text of the archive; they repeat the keyword or the id.
  cases hreading : Reading.ofLine line with
  | empty =>
    simp only [Server.answer, hreading] at h
    cases h
  | unsupported keyword =>
    rw [hreading] at htame
    simp only [Server.answer, hreading] at h
    cases h
    refine iff_of_true ?_ (List.forall_mem_nil _)
    exact OneLine.append.mpr ⟨by decide, htame⟩
  | malformed verb id =>
    rw [hreading] at htame
    cases hmismatch : verb.onMismatch with
    | ignored =>
      simp only [Server.answer, hreading, hmismatch] at h
      cases h
    | rejected =>
      simp only [Server.answer, hreading, hmismatch] at h
      cases h
      refine iff_of_true ?_ (List.forall_mem_nil _)
      cases id with
      | none =>
        show OneLine _
        decide
      | some id => exact OneLine.append.mpr ⟨htame id rfl, by decide⟩
  | wellFormed request =>
    rw [hreading] at htame
    rw [Server.eq_reply_of_answer hreading h]
    exact Request.framed_reply_iff htame s

/-- **When a reply can be framed.** The reply to a request line is framed exactly if no text of the
archive that it shows as it is has a newline in it; then exactly the announced number of lines
follows the header of a block. -/
theorem framed_iff_plainTexts [Compressor] {limit : Nat} {buffer : Bytes} {line : Line}
    (hline : Line.split limit buffer = .ok (some line)) {s : Server} {r : Reply}
    (hreply : (s.answer line.text).1 = .reply r) :
    (r.Framed ↔ ∀ text ∈ s.plainTexts line.text, OneLine text) ∧
      ∀ header lines, r = .block header lines → r.Framed →
        Stream.lines r.bytes =
          Utf8.encode (header ++ " " ++ Numeral.ofNat lines.length) :: lines.map Utf8.encode := by
  refine ⟨Server.framed_iff_of_oneLine (Line.oneLine_of_split hline) hreply, ?_⟩
  rintro header lines rfl hframed
  exact Reply.lines_bytes hframed

/-! ## A channel list that comes apart

One channel, whose other name has a newline in it. -/

/-- A server whose only channel has another name on two lines. -/
def spoiled : Server where
  archive :=
    { channels := [⟨{ address := ⟨"AKV", "EHZ", "AV", none⟩, otherName := some "a\nb" }, []⟩] }
  clock := ⟨⟨0, 0⟩, 0⟩

/-- The channel list of `spoiled`. -/
def spoiledList : Reply := .block "1" ["1:AKV$EHZ$AV:::::::a\nb::1:0:"]

/-- A block that announces one line, after which a client that reads this one line finds another. -/
theorem spoiled_not_framed :
    Line.split 8192 (Utf8.encode "GETCHANNELS 1 METADATA\n") =
        .ok (some ⟨"GETCHANNELS 1 METADATA", 23⟩) ∧
      (spoiled.answer "GETCHANNELS 1 METADATA").1 = .reply spoiledList ∧
      ¬ spoiledList.Framed ∧ (Stream.lines spoiledList.bytes).length = 3 := by
  refine ⟨by decide +kernel, by decide +kernel, by decide, by decide +kernel⟩

/-- The other name is among the texts that the list shows as they are. -/
theorem framed_iff_plainTexts_spoiled :
    "a\nb" ∈ spoiled.plainTexts "GETCHANNELS 1 METADATA" ∧
      (spoiledList.Framed ↔
        ∀ text ∈ spoiled.plainTexts "GETCHANNELS 1 METADATA", OneLine text) := by
  have hline : Line.split 8192 (Utf8.encode "GETCHANNELS 1 METADATA\n") =
      .ok (some ⟨"GETCHANNELS 1 METADATA", 23⟩) := by decide +kernel
  have hreply : (spoiled.answer "GETCHANNELS 1 METADATA").1 = .reply spoiledList := by
    decide +kernel
  exact ⟨by decide +kernel, (framed_iff_plainTexts hline hreply).1⟩

end Seismic
