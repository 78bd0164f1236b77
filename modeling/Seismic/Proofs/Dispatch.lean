import Seismic.Proofs.Asked
import Seismic.Proofs.Grammar
import Seismic.Proofs.Replies

/-!
# Dispatch — what becomes of a line

A line is dropped, refused or carried out, and its keyword and tokens decide which. A client can tell
the cases apart, since no request is answered like an error:

* **`Request.opens_reply`**: the reply to a request opens with the request's id and goes on unlike
  an error;
* **`Server.dispatched_answer`**: one of five things happens to a line;
* **`Server.dispatches`**: so each kind of error reply, and silence, is given exactly where it should
  be, and every command that fits its verb is carried out.
-/

namespace Seismic

/-! ## Openings

The first tokens of a reply line tell what it is. The reply to a request starts with the request's
id; then comes the number of a channel, the id once more or the letters of a failure, but never a
word of an error reply. -/

/-- No word is a numeral. -/
theorem Numeral.ofNat_ne {n : Nat} {text : String} {c : Char} (hmem : c ∈ text.toList)
    (hc : inNumbers c = false) : ofNat n ≠ text := by
  intro heq
  have hlacks : Lacks c text := heq ▸ Lacks.ofNat hc n
  exact hlacks hmem

/-- A failure is named by two letters. -/
theorem Failure.code_ne {f : Failure} {text : String} (h : 2 < text.length) : f.code ≠ text := by
  intro heq
  have hlength : f.code.length = 2 := by
    cases f with
    | noChannel | badRange | gap => rfl
    | tooEarly t => exact show "FL".length = 2 by decide
    | tooLate t => exact show "FR".length = 2 by decide
  rw [heq] at hlength
  omega

namespace Reply

/-- The tokens of a line start like a reply to a request with this id. -/
inductive Opens (id : String) : List String → Prop
  | alone : Opens id [id]
  | channel (sid : Nat) (more : List String) : Opens id (id :: Numeral.ofNat sid :: more)
  /-- Where the channel is not there, the id stands twice before its number. -/
  | noChannel (sid : Nat) (more : List String) : Opens id (id :: id :: Numeral.ofNat sid :: more)
  | failure (f : Failure) (more : List String) : Opens id (id :: f.code :: more)

/-- A reply to a request differs from the reply to an unknown keyword at the second token. -/
theorem Opens.ne_unsupported {id : String} {tokens : List String} (h : Opens id tokens)
    (more : List String) : tokens ≠ "ERROR:" :: "unsupported" :: more := by
  intro heq
  cases h with
  | alone => cases heq
  | channel sid rest =>
    have hsid : Numeral.ofNat sid = "unsupported" := (List.cons.inj (List.cons.inj heq).2).1
    exact Numeral.ofNat_ne (c := 'u') (by decide) (by decide) hsid
  | noChannel sid rest =>
    -- The first two tokens are one and the same id, those of the error differ.
    have hfirst : id = "ERROR:" := (List.cons.inj heq).1
    have hsecond : id = "unsupported" := (List.cons.inj (List.cons.inj heq).2).1
    rw [hfirst] at hsecond
    exact absurd hsecond (by decide)
  | failure f rest =>
    have hcode : f.code = "unsupported" := (List.cons.inj (List.cons.inj heq).2).1
    exact Failure.code_ne (by decide) hcode

/-- A reply to a request differs from the reply to a malformed command by the third token. -/
theorem Opens.ne_malformed {id : String} {tokens : List String} (h : Opens id tokens)
    (more : List String) : tokens ≠ id :: "ERROR:" :: "malformed" :: more := by
  intro heq
  cases h with
  | alone => cases heq
  | channel sid rest =>
    have hsid : Numeral.ofNat sid = "ERROR:" := (List.cons.inj (List.cons.inj heq).2).1
    exact Numeral.ofNat_ne (c := 'R') (by decide) (by decide) hsid
  | noChannel sid rest =>
    have hrest := (List.cons.inj (List.cons.inj heq).2).2
    have hsid : Numeral.ofNat sid = "malformed" := (List.cons.inj hrest).1
    exact Numeral.ofNat_ne (c := 'm') (by decide) (by decide) hsid
  | failure f rest =>
    have hcode : f.code = "ERROR:" := (List.cons.inj (List.cons.inj heq).2).1
    exact Failure.code_ne (by decide) hcode

/-- A header starts with the id and the channel. -/
theorem opens_sid {id : String} (hid : Lacks ' ' id) (sid : Nat) (rest : String) :
    Opens id (Text.fields ' ' (id ++ " " ++ (Numeral.ofNat sid ++ " " ++ rest))) := by
  rw [Text.fields_append_space hid, Text.fields_append_space (Lacks.ofNat (by decide) sid)]
  exact .channel sid _

/-- The first two tokens tell that a keyword is unknown. -/
theorem fields_unsupported (keyword : String) :
    Text.fields ' ' ("ERROR: unsupported command " ++ keyword) =
      "ERROR:" :: "unsupported" :: Text.fields ' ' ("command " ++ keyword) := by
  have htext : "ERROR: unsupported command " ++ keyword =
      "ERROR:" ++ " " ++ ("unsupported" ++ " " ++ ("command " ++ keyword)) := by
    simp only [← String.append_assoc]
    rfl
  rw [htext, Text.fields_append_space (by decide), Text.fields_append_space (by decide)]

theorem fields_malformed {id : String} (hid : Lacks ' ' id) :
    Text.fields ' ' (id ++ " ERROR: malformed command") =
      [id, "ERROR:", "malformed", "command"] := by
  have htext : id ++ " ERROR: malformed command" = id ++ " " ++ "ERROR: malformed command" := by
    rw [String.append_assoc]
    rfl
  have hrest : Text.fields ' ' "ERROR: malformed command" = ["ERROR:", "malformed", "command"] := by
    decide +kernel
  rw [htext, Text.fields_append_space hid, hrest]

theorem unsupported_inj {keyword keyword' : String}
    (h : unsupported keyword = unsupported keyword') : keyword = keyword' :=
  String.append_right_inj _ |>.mp (line.inj h)

/-- The two errors differ at the second token, whether or not there is an id to begin with. -/
theorem unsupported_ne_malformed (keyword : String) {id : Option String}
    (hid : ∀ text, id = some text → Lacks ' ' text) : unsupported keyword ≠ malformed id := by
  intro heq
  have htokens := fields_unsupported keyword
  cases id with
  | none =>
    have hnone : Text.fields ' ' "ERROR: malformed command" =
        ["ERROR:", "malformed", "command"] := by decide +kernel
    rw [line.inj heq, hnone] at htokens
    exact absurd (List.cons.inj (List.cons.inj htokens).2).1 (by decide)
  | some text =>
    rw [line.inj heq, fields_malformed (hid text rfl)] at htokens
    exact absurd (List.cons.inj (List.cons.inj htokens).2).1 (by decide)

end Reply

/-- An id is a token, and so has no space. -/
theorem Command.lacks_space_of_id? {line : String} {c : Command}
    (hparse : Command.parse? line = some c) (id : String) (hid : c.id? = some id) : Lacks ' ' id :=
  lacks_space_of_mem_arguments hparse (List.mem_of_getElem? hid)

/-- The text of a failure starts with its letters. -/
theorem Failure.exists_fields_text (f : Failure) :
    ∃ more, Text.fields ' ' f.text = f.code :: more := by
  cases f with
  | noChannel => exact ⟨[], by decide +kernel⟩
  | badRange => exact ⟨[], by decide +kernel⟩
  | gap => exact ⟨["s4"], by decide +kernel⟩
  -- These two go on with a time, which is not looked at.
  | tooEarly t =>
    have htext : (tooEarly t).text = "FL" ++ " " ++ (sampleType ++ " " ++ t.wireText) := by
      simp only [text, String.append_assoc]
      rfl
    rw [htext, Text.fields_append_space (by decide)]
    exact ⟨_, rfl⟩
  | tooLate t =>
    have htext : (tooLate t).text = "FR" ++ " " ++ (sampleType ++ " " ++ t.wireText) := by
      simp only [text, String.append_assoc]
      rfl
    rw [htext, Text.fields_append_space (by decide)]
    exact ⟨_, rfl⟩

/-- A reply is a block or a payload, or a line that opens like a reply to a request with this id. -/
def Reply.OpensIfLine (id : String) (r : Reply) : Prop :=
  ∀ text, r = .line text → Opens id (Text.fields ' ' text)

theorem Reply.opens_block {id header : String} (lines : List String) :
    (block header lines).OpensIfLine id := by
  intro text htext
  cases htext

theorem Reply.opens_binary {id header : String} (payload : Payload) :
    (binary header payload).OpensIfLine id := by
  intro text htext
  cases htext

namespace Data

variable {data : DataRequest} (hid : Lacks ' ' data.id)

include hid

/-- **Every failure opens like a reply**, with the channel or without it. -/
theorem opens_failure (framing : Framing) (sid : Nat) (f : Failure) :
    (failure data framing sid f).OpensIfLine data.id := by
  intro text htext
  unfold failure Reply.failure at htext
  split at htext
  -- No channel: its header has the id twice and the number zero.
  · next withLocation =>
    have hheader : text = data.id ++ " " ++ (data.id ++ " " ++ (Numeral.ofNat sid ++ " " ++
        (data.address.wire withLocation ++ " " ++ Failure.noChannel.text))) := by
      rw [← Reply.line.inj htext]
      simp only [header, String.append_assoc]
    rw [hheader, Text.fields_append_space hid, Text.fields_append_space hid,
      Text.fields_append_space (Lacks.ofNat (by decide) sid)]
    exact .noChannel sid _
  -- Otherwise the header is the one of the framing.
  · cases framing with
    | channel withLocation =>
      have hheader : text = data.id ++ " " ++ (Numeral.ofNat sid ++ " " ++
          (data.address.wire withLocation ++ " " ++ f.text)) := by
        rw [← Reply.line.inj htext]
        simp only [header, String.append_assoc]
      rw [hheader]
      exact Reply.opens_sid hid sid _
    | idOnly =>
      obtain ⟨more, hmore⟩ := f.exists_fields_text
      have hheader : text = data.id ++ " " ++ f.text := (Reply.line.inj htext).symm
      rw [hheader, Text.fields_append_space hid, hmore]
      exact .failure f more

/-- A reply with data opens as the verb lets it, and any other is a failure. -/
theorem opens_replyTo {β : Type} {framing : Framing} {found : Located}
    {find : Nat → Span Time → Option β} {reply : Nat → β → Reply}
    (hreply : ∀ sid product, (reply sid product).OpensIfLine data.id) :
    (replyTo data framing found find reply).OpensIfLine data.id :=
  replyTo_cases (opens_failure hid framing found.sid) (hreply found.sid)

/-- A line of samples opens with its header. -/
theorem opens_sampleLine (withLocation : Bool) (sid : Nat) (fill : String) (wave : Segment Time) :
    (Reply.line (sampleLine (header data (.channel withLocation) sid) fill wave)).OpensIfLine
      data.id := by
  intro text htext
  have hline : text = data.id ++ " " ++ (Numeral.ofNat sid ++ " " ++
      (data.address.wire withLocation ++ " F " ++ sampleType ++ " " ++ wave.start.wireText ++ " " ++
        wave.rate.fixed ++ String.join (wave.samples.map fun sample =>
          " " ++ sampleText fill sample))) := by
    rw [← Reply.line.inj htext]
    simp only [sampleLine, header, String.append_assoc]
  rw [hline]
  exact Reply.opens_sid hid sid _

end Data

/-- A menu opens with its first channel, and is the id alone if it lists none. -/
theorem Listings.opens_menuLine {id : String} (hid : Lacks ' ' id) (withLocation : Bool)
    (entries : List (Listing × Span Time)) :
    (Reply.line (menuLine id withLocation entries)).OpensIfLine id := by
  intro text htext
  rw [← Reply.line.inj htext]
  unfold menuLine
  cases menuOrder entries with
  | nil =>
    have halone : id ++ String.join (([] : List (Listing × Span Time)).map
        (menuEntry withLocation)) = id := String.append_empty
    rw [halone, Text.fields_of_lacks hid]
    exact .alone
  | cons first others =>
    obtain ⟨l, span⟩ := first
    have hline : id ++ String.join (((l, span) :: others).map (menuEntry withLocation)) =
        id ++ " " ++ (Numeral.ofNat l.sid ++ " " ++ (l.channel.address.wire withLocation ++ " " ++
          span.start.wireText ++ " " ++ span.stop.wireText ++ " " ++ sampleType ++ " " ++
          String.join (others.map (menuEntry withLocation)))) := by
      simp only [List.map_cons, String.join_cons, menuEntry, String.append_assoc]
    rw [hline]
    exact Reply.opens_sid hid l.sid _

namespace Request

variable {request : Request}

/-- **The reply to a request opens with its id**, and not like an error. -/
theorem opens_reply {id : String} (hrequest : request.id? = some id) (hid : Lacks ' ' id)
    (s : Server) : (request.reply s).OpensIfLine id := by
  cases request with
  | version => cases hrequest
  | status | channels => exact Reply.opens_block _
  | records id' kind =>
    cases kind with
    | instrument | channel => exact Reply.opens_block _
  | menu id' withLocation =>
    cases hrequest
    exact Listings.opens_menuLine hid withLocation _
  -- A reply with data is a payload, or a line with the samples.
  | samples data withLocation fill =>
    cases hrequest
    unfold Request.reply
    exact Data.opens_replyTo hid fun sid wave => Data.opens_sampleLine hid withLocation sid fill wave
  | wave data framing compressed =>
    cases hrequest
    unfold Request.reply
    exact Data.opens_replyTo hid fun _ _ => Reply.opens_binary _
  | helicorder data compressed | rsam data period compressed =>
    cases hrequest
    unfold Request.reply
    exact Data.opens_replyTo hid fun _ _ => Reply.opens_binary _

/-- **No request is answered like an error.** -/
theorem ne_error_of_result {s : Server} {r : Reply} {line : String} {c : Command} {verb : Verb}
    (hparse : Command.parse? line = some c) (hrequest : ofCommand? c verb = some request)
    (h : (request.perform.on s).1 = .ok r) :
    (∀ keyword, r ≠ .unsupported keyword) ∧ r ≠ .malformed c.id? := by
  rw [eq_reply_of_result h]
  have hlacks := Command.lacks_space_of_id? hparse
  -- Only the version has no id in its reply. It is one fixed line.
  obtain ⟨-, -, rfl | ⟨id, hc, hid⟩⟩ := fits_of_ofCommand? hrequest
  · have hversion : version.reply s = .line "PROTOCOL_VERSION: 3" := rfl
    have htokens : Text.fields ' ' "PROTOCOL_VERSION: 3" = ["PROTOCOL_VERSION:", "3"] := by
      decide +kernel
    rw [hversion]
    constructor
    · intro keyword heq
      have hunsupported := Reply.fields_unsupported keyword
      rw [← Reply.line.inj heq, htokens] at hunsupported
      exact absurd (List.cons.inj hunsupported).1 (by decide)
    · intro heq
      cases hc : c.id? with
      | none =>
        rw [hc] at heq
        exact absurd heq (by decide)
      | some id =>
        have hmalformed := Reply.fields_malformed (hlacks _ hc)
        rw [hc] at heq
        rw [← Reply.line.inj heq, htokens] at hmalformed
        exact absurd (List.cons.inj (List.cons.inj hmalformed).2).1 (by decide)
  · have hopens := opens_reply hid (hlacks _ hc) s
    constructor
    · intro keyword heq
      exact (hopens _ heq).ne_unsupported _ (Reply.fields_unsupported keyword)
    · intro heq
      rw [hc] at heq
      exact (hopens _ heq).ne_malformed _ (Reply.fields_malformed (hlacks _ hc))

end Request

/-! ## Dispatch -/

/-- A request is never dropped without a word. -/
theorem Outcome.ofResult_ne_silent (result : Except Halt Reply) : ofResult result ≠ .silent := by
  rcases result with (_ | _) | r
  · exact nofun
  · exact nofun
  · exact nofun

/-- A keyword is looked up among those of the verbs, which are all different. -/
theorem Verb.ofKeyword?_eq_some_iff {keyword : String} {verb : Verb} :
    ofKeyword? keyword = some verb ↔ verb.keyword = keyword := by
  constructor
  · intro h
    have hfound := List.find?_some h
    exact of_decide_eq_true hfound
  · intro h
    rw [← h]
    exact ofKeyword?_keyword verb

/-- The older verbs are those that drop what they cannot read. -/
theorem Verb.onMismatch_eq_ignored_iff {verb : Verb} : verb.onMismatch = .ignored ↔ verb.Older := by
  cases verb with
  | _ => unfold Older; decide

namespace Server

variable {s : Server} {line : String} {c : Command} {verb : Verb}

/-- A blank line is dropped. -/
theorem answer_of_empty (hparse : Command.parse? line = none) : s.answer line = (.silent, s) := by
  simp only [answer, Reading.ofLine, hparse]

/-- A keyword of no verb is unsupported. -/
theorem answer_of_unknown (hparse : Command.parse? line = some c)
    (hkeyword : ∀ verb : Verb, verb.keyword ≠ c.keyword) :
    s.answer line = (.reply (.unsupported c.keyword), s) := by
  have hnone : Verb.ofKeyword? c.keyword = none := by
    cases hverb : Verb.ofKeyword? c.keyword with
    | none => rfl
    | some verb => exact absurd (Verb.ofKeyword?_eq_some_iff.mp hverb) (hkeyword verb)
  simp only [answer, Reading.ofLine, hparse, hnone]

section Known

variable (hparse : Command.parse? line = some c) (hkeyword : verb.keyword = c.keyword)

include hparse hkeyword

/-- A command that does not fit its verb is malformed. -/
theorem ofLine_of_not_fits (hfits : ¬ verb.Fits c) :
    Reading.ofLine line = .malformed verb c.id? := by
  have hverb : Verb.ofKeyword? c.keyword = some verb := Verb.ofKeyword?_eq_some_iff.mpr hkeyword
  have hnone : Request.ofCommand? c verb = none := by
    cases hrequest : Request.ofCommand? c verb with
    | none => rfl
    | some request => exact absurd (Request.fits_of_ofCommand? hrequest).1 hfits
  simp only [Reading.ofLine, hparse, hverb, hnone]

/-- An older verb drops a malformed command. -/
theorem answer_of_dropped (hfits : ¬ verb.Fits c) (holder : verb.Older) :
    s.answer line = (.silent, s) := by
  have hmismatch : verb.onMismatch = .ignored := Verb.onMismatch_eq_ignored_iff.mpr holder
  simp only [answer, ofLine_of_not_fits hparse hkeyword hfits, hmismatch]

/-- A newer verb refuses it. -/
theorem answer_of_refused (hfits : ¬ verb.Fits c) (hnewer : ¬ verb.Older) :
    s.answer line = (.reply (.malformed c.id?), s) := by
  have hmismatch : verb.onMismatch = .rejected := by
    cases h : verb.onMismatch with
    | ignored => exact absurd (Verb.onMismatch_eq_ignored_iff.mp h) hnewer
    | rejected => rfl
  simp only [answer, ofLine_of_not_fits hparse hkeyword hfits, hmismatch]

/-- A command that fits its verb is carried out. -/
theorem answer_of_fits (hfits : verb.Fits c) :
    ∃ request, Request.ofCommand? c verb = some request ∧
      s.answer line = (.ofResult (request.perform.on s).1, (request.perform.on s).2) := by
  obtain ⟨request, hrequest⟩ := Request.exists_of_fits hfits
  have hverb : Verb.ofKeyword? c.keyword = some verb := Verb.ofKeyword?_eq_some_iff.mpr hkeyword
  have hline : Reading.ofLine line = .wellFormed request := by
    simp only [Reading.ofLine, hparse, hverb, hrequest]
  exact ⟨request, hrequest, answer_eq_of_wellFormed hline⟩

end Known

/-- What a server does with a line, by what the line is. -/
inductive Dispatched (s : Server) (line : String) : Outcome × Server → Prop
  | empty (hparse : Command.parse? line = none) : Dispatched s line (.silent, s)
  | unknown {c : Command} (hparse : Command.parse? line = some c)
      (hkeyword : ∀ verb : Verb, verb.keyword ≠ c.keyword) :
      Dispatched s line (.reply (.unsupported c.keyword), s)
  | dropped {c : Command} {verb : Verb} (hparse : Command.parse? line = some c)
      (hkeyword : verb.keyword = c.keyword) (hfits : ¬ verb.Fits c) (holder : verb.Older) :
      Dispatched s line (.silent, s)
  | refused {c : Command} {verb : Verb} (hparse : Command.parse? line = some c)
      (hkeyword : verb.keyword = c.keyword) (hfits : ¬ verb.Fits c) (hnewer : ¬ verb.Older) :
      Dispatched s line (.reply (.malformed c.id?), s)
  | performed {c : Command} {verb : Verb} {request : Request}
      (hparse : Command.parse? line = some c) (hkeyword : verb.keyword = c.keyword)
      (hfits : verb.Fits c) (hrequest : Request.ofCommand? c verb = some request) :
      Dispatched s line (.ofResult (request.perform.on s).1, (request.perform.on s).2)

/-- **One of five things happens to a line.** -/
theorem dispatched_answer (s : Server) (line : String) : Dispatched s line (s.answer line) := by
  cases hparse : Command.parse? line with
  | none =>
    rw [answer_of_empty hparse]
    exact .empty hparse
  | some c =>
    -- Is the keyword known, does the command fit, and is the verb an older one: in this order.
    by_cases hknown : ∃ verb : Verb, verb.keyword = c.keyword
    · obtain ⟨verb, hkeyword⟩ := hknown
      by_cases hfits : verb.Fits c
      · obtain ⟨request, hrequest, hanswer⟩ := answer_of_fits (s := s) hparse hkeyword hfits
        rw [hanswer]
        exact .performed hparse hkeyword hfits hrequest
      by_cases holder : verb.Older
      · rw [answer_of_dropped hparse hkeyword hfits holder]
        exact .dropped hparse hkeyword hfits holder
      · rw [answer_of_refused hparse hkeyword hfits holder]
        exact .refused hparse hkeyword hfits holder
    · have hunknown : ∀ verb : Verb, verb.keyword ≠ c.keyword := not_exists.mp hknown
      rw [answer_of_unknown hparse hunknown]
      exact .unknown hparse hunknown

/-- The keyword and the tokens of a line decide what becomes of it. -/
structure Dispatches (s : Server) (line : String) : Prop where
  /-- Only blank lines and malformed commands of an older verb are dropped without a word. -/
  silent : (s.answer line).1 = .silent ↔
    Command.parse? line = none ∨ ∃ c, ∃ verb : Verb, Command.parse? line = some c ∧
      verb.keyword = c.keyword ∧ verb.Older ∧ ¬ verb.Fits c
  /-- Only unknown keywords are unsupported. -/
  unsupported : ∀ keyword, (s.answer line).1 = .reply (.unsupported keyword) ↔
    ∃ c, Command.parse? line = some c ∧ c.keyword = keyword ∧ ∀ verb : Verb, verb.keyword ≠ keyword
  /-- Only commands of a newer verb are malformed, and only those that do not fit it. -/
  malformed : ∀ c, Command.parse? line = some c →
    ((s.answer line).1 = .reply (.malformed c.id?) ↔
      ∃ verb : Verb, verb.keyword = c.keyword ∧ ¬ verb.Older ∧ ¬ verb.Fits c)
  /-- Every command that fits its verb makes a request of the verb, which is carried out. -/
  performed : ∀ c (verb : Verb), Command.parse? line = some c → verb.keyword = c.keyword →
    verb.Fits c → ∃ request, Request.ofCommand? c verb = some request ∧ request.verb = verb ∧
      s.answer line = (.ofResult (request.perform.on s).1, (request.perform.on s).2)
  /-- Nothing else changes the server. -/
  unchanged : (∀ c (verb : Verb), Command.parse? line = some c → verb.keyword = c.keyword →
    ¬ verb.Fits c) → (s.answer line).2 = s

/-- Whoever is told that a keyword is unsupported has sent it, and it is of no verb. -/
theorem eq_unknown_of_unsupported {keyword : String}
    (h : (s.answer line).1 = .reply (.unsupported keyword)) :
    ∃ c, Command.parse? line = some c ∧ c.keyword = keyword ∧
      ∀ verb : Verb, verb.keyword ≠ keyword := by
  have hanswer := s.dispatched_answer line
  -- By what happened to the line. Only two of the five cases reply with an error, and these replies
  -- differ; a request that was carried out does not reply like either.
  generalize s.answer line = answer at h hanswer
  cases hanswer with
  | empty hparse => cases h
  | dropped hparse hkeyword hfits holder => cases h
  | unknown hparse hkeyword =>
    have hreply := Reply.unsupported_inj (Outcome.reply.inj h)
    exact ⟨_, hparse, hreply, hreply ▸ hkeyword⟩
  | refused hparse hkeyword hfits hnewer =>
    have hid := Command.lacks_space_of_id? hparse
    exact absurd (Outcome.reply.inj h).symm (Reply.unsupported_ne_malformed keyword hid)
  | performed hparse hkeyword hfits hrequest =>
    have hperform := Outcome.eq_ok_of_ofResult h
    have hne := Request.ne_error_of_result hparse hrequest hperform
    exact absurd rfl (hne.1 keyword)

/-- Whoever is told that a command is malformed has sent one of a newer verb that does not fit. -/
theorem exists_refused_of_malformed (hparse : Command.parse? line = some c)
    (h : (s.answer line).1 = .reply (.malformed c.id?)) :
    ∃ verb : Verb, verb.keyword = c.keyword ∧ ¬ verb.Older ∧ ¬ verb.Fits c := by
  have hanswer := s.dispatched_answer line
  have hsame {c' : Command} (hparse' : Command.parse? line = some c') : c' = c :=
    Option.some.inj (hparse'.symm.trans hparse)
  generalize s.answer line = answer at h hanswer
  cases hanswer with
  | empty _ => cases h
  | dropped _ _ _ _ => cases h
  | unknown _ _ =>
    have hid := Command.lacks_space_of_id? hparse
    exact absurd (Outcome.reply.inj h) (Reply.unsupported_ne_malformed _ hid)
  | refused hparse' hkeyword hfits hnewer =>
    obtain rfl := hsame hparse'
    exact ⟨_, hkeyword, hnewer, hfits⟩
  | performed hparse' _ _ hrequest =>
    obtain rfl := hsame hparse'
    have hperform := Outcome.eq_ok_of_ofResult h
    have hne := Request.ne_error_of_result hparse hrequest hperform
    exact absurd rfl hne.2

/-- What goes without a reply was dropped. -/
theorem dropped_of_silent (h : (s.answer line).1 = .silent) :
    Command.parse? line = none ∨ ∃ c, ∃ verb : Verb, Command.parse? line = some c ∧
      verb.keyword = c.keyword ∧ verb.Older ∧ ¬ verb.Fits c := by
  have hanswer := s.dispatched_answer line
  generalize s.answer line = answer at h hanswer
  cases hanswer with
  | empty hparse => exact .inl hparse
  | dropped hparse hkeyword hfits holder => exact .inr ⟨_, _, hparse, hkeyword, holder, hfits⟩
  | unknown _ _ => cases h
  | refused _ _ _ _ => cases h
  | performed _ _ _ _ => exact absurd h (Outcome.ofResult_ne_silent _)

/-- **The grammar decides.** For every line and whatever state the server is in: a line is dropped
exactly if it is blank or a malformed command of an older verb, it is called unsupported exactly if
its keyword is unknown and malformed exactly if it is a command of a newer verb that does not fit,
and every other line is a request that is carried out. -/
theorem dispatches (s : Server) (line : String) : s.Dispatches line where
  silent := by
    refine ⟨dropped_of_silent, ?_⟩
    rintro (hparse | ⟨c, verb, hparse, hkeyword, holder, hfits⟩)
    · rw [answer_of_empty hparse]
    · rw [answer_of_dropped hparse hkeyword hfits holder]
  unsupported := by
    intro keyword
    refine ⟨eq_unknown_of_unsupported, ?_⟩
    rintro ⟨c, hparse, rfl, hkeyword⟩
    rw [answer_of_unknown hparse hkeyword]
  malformed := by
    intro c hparse
    refine ⟨exists_refused_of_malformed hparse, ?_⟩
    rintro ⟨verb, hkeyword, hnewer, hfits⟩
    rw [answer_of_refused hparse hkeyword hfits hnewer]
  performed := by
    intro c verb hparse hkeyword hfits
    obtain ⟨request, hrequest, hanswer⟩ := answer_of_fits (s := s) hparse hkeyword hfits
    exact ⟨request, hrequest, (Request.fits_of_ofCommand? hrequest).2.1, hanswer⟩
  unchanged := by
    intro hnone
    have hanswer := s.dispatched_answer line
    generalize s.answer line = answer at hanswer
    cases hanswer with
    | empty _ => rfl
    | unknown _ _ => rfl
    | dropped _ _ _ _ => rfl
    | refused _ _ _ _ => rfl
    | performed hparse hkeyword hfits _ => exact absurd hfits (hnone _ _ hparse hkeyword)

end Server

end Seismic
