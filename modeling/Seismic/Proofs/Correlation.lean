import Seismic.Proofs.Dispatch
import Seismic.Reply.Zlib

/-!
# Correlation — replies that name their request

A client that has sent several requests tells the replies apart by the ids that it gave them. Every
verb writes the start of its reply in its own way: the id alone, with a channel behind it, twice, or
with nothing but menu entries behind it.

* **`LedBy`** is what all of these starts have in common, and **`Reply.bearsId_of_ledBy`** brings it
  to the bytes of a reply;
* **`Request.ledBy_opening`**: the reply to a request is led by the request's id, whatever the server
  holds;
* **`Server.replies_bear_ids`**: so is every reply to a line with an id, except for the version.
-/

namespace Seismic

/-- A text is led by an id: it is the id, or goes on after a space. -/
inductive LedBy (id : String) : String → Prop
  | alone : LedBy id id
  | spaced (more : String) : LedBy id (id ++ " " ++ more)

namespace LedBy

variable {id text : String}

theorem append_space (h : LedBy id text) (more : String) : LedBy id (text ++ " " ++ more) := by
  cases h with
  | alone => exact .spaced more
  | spaced first =>
    have hmore : id ++ " " ++ first ++ " " ++ more = id ++ " " ++ (first ++ " " ++ more) := by
      simp only [String.append_assoc]
    rw [hmore]
    exact .spaced _

/-- The letter that goes before the samples stands behind a space, too. -/
theorem append_letter (h : LedBy id text) (more : String) : LedBy id (text ++ " F " ++ more) := by
  have hspace : text ++ " F " ++ more = text ++ " " ++ ("F " ++ more) := by
    rw [show " F " = " " ++ "F " by decide]
    simp only [String.append_assoc]
  rw [hspace]
  exact h.append_space _

end LedBy

/-! ## Replies and their bytes -/

namespace Reply

/-- The text that a reply starts with: the line, or the header before the number in it. -/
def opening : Reply → String
  | line text => text
  | block header _ | binary header _ => header

/-- The bytes of a reply start with an id and then a space or the end of a line. -/
def BearsId [Compressor] (id : String) (r : Reply) : Prop :=
  ∃ mark rest, r.bytes = Utf8.encode id ++ mark :: rest ∧ (mark = 32 ∨ mark = newline)

variable {id text : String}

theorem encode_append (a b : String) : Utf8.encode (a ++ b) = Utf8.encode a ++ Utf8.encode b := by
  unfold Utf8.encode
  rw [String.toList_append, List.flatMap_append]

theorem encode_spaced (id more : String) :
    Utf8.encode (id ++ " " ++ more) = Utf8.encode id ++ 32 :: Utf8.encode more := by
  have hspace : Utf8.encode " " = [32] := by decide
  rw [encode_append, encode_append, hspace, List.append_assoc, List.singleton_append]

theorem exists_lineBytes_of_ledBy (h : LedBy id text) (more : Bytes) :
    ∃ mark rest, lineBytes text ++ more = Utf8.encode id ++ mark :: rest ∧
      (mark = 32 ∨ mark = newline) := by
  cases h with
  | alone =>
    refine ⟨newline, more, ?_, .inr rfl⟩
    rw [lineBytes, List.append_assoc, List.singleton_append]
  | spaced first =>
    refine ⟨32, Utf8.encode first ++ [newline] ++ more, ?_, .inl rfl⟩
    rw [lineBytes, encode_spaced]
    simp only [List.append_assoc, List.cons_append]

/-- **A reply that opens with an id bears it.** The number that ends a header stands behind a space,
so it does not run into the id. -/
theorem bearsId_of_ledBy [Compressor] {r : Reply} (h : LedBy id r.opening) : r.BearsId id := by
  cases r with
  | line text =>
    obtain ⟨mark, rest, hbytes, hmark⟩ := exists_lineBytes_of_ledBy h []
    rw [List.append_nil] at hbytes
    exact ⟨mark, rest, hbytes, hmark⟩
  | block header lines => exact exists_lineBytes_of_ledBy (h.append_space _) _
  | binary header payload => exact exists_lineBytes_of_ledBy (h.append_space _) _

end Reply

/-! ## Requests for data -/

namespace Data

/-- A header begins with the id. -/
theorem ledBy_header (data : DataRequest) (framing : Framing) (sid : Nat) :
    LedBy data.id (header data framing sid) := by
  cases framing with
  | idOnly => exact .alone
  | channel withLocation => exact (LedBy.spaced _).append_space _

/-- A failure is led by the id, also where the id stands twice. -/
theorem ledBy_failure (data : DataRequest) (framing : Framing) (sid : Nat) (f : Failure) :
    LedBy data.id (failure data framing sid f).opening := by
  unfold failure
  split
  · exact (LedBy.spaced _).append_space _
  · exact (ledBy_header data framing sid).append_space _

/-- So does every answer to a request for data, with a product or without. -/
theorem ledBy_replyTo {β : Type} {data : DataRequest} {framing : Framing} {found : Located}
    {find : Nat → Span Time → Option β} {reply : Nat → β → Reply}
    (hreply : ∀ sid product, LedBy data.id (reply sid product).opening) :
    LedBy data.id (replyTo data framing found find reply).opening := by
  refine replyTo_cases (P := fun r => LedBy data.id r.opening) (fun f => ?_) (hreply found.sid)
  exact ledBy_failure data framing found.sid f

theorem ledBy_sampleLine (data : DataRequest) (withLocation : Bool) (sid : Nat) (fill : String)
    (wave : Segment Time) :
    LedBy data.id (sampleLine (header data (.channel withLocation) sid) fill wave) := by
  unfold sampleLine
  simp only [String.append_assoc]
  rw [← String.append_assoc]
  exact (ledBy_header data (.channel withLocation) sid).append_letter _

theorem ledBy_waveHeader (data : DataRequest) (framing : Framing) (sid : Nat)
    (wave : Segment Time) : LedBy data.id (waveHeader data framing sid wave) := by
  cases framing with
  | idOnly => exact .alone
  | channel withLocation =>
    unfold waveHeader
    simp only [String.append_assoc]
    rw [← String.append_assoc]
    exact (ledBy_header data (.channel withLocation) sid).append_letter _

end Data

/-! ## Menus -/

theorem Listings.ledBy_menuLine (id : String) (withLocation : Bool)
    (entries : List (Listing × Span Time)) : LedBy id (menuLine id withLocation entries) := by
  unfold menuLine
  cases menuOrder entries with
  | nil =>
    -- An empty menu is its id.
    have hnone : id ++ String.join (([] : List (Listing × Span Time)).map
        (menuEntry withLocation)) = id := String.append_empty
    rw [hnone]
    exact .alone
  | cons first others =>
    obtain ⟨l, span⟩ := first
    -- Every entry begins with a space.
    simp only [List.map_cons, String.join_cons, menuEntry, String.append_assoc]
    rw [← String.append_assoc]
    exact .spaced _

/-! ## Requests -/

/-- **The reply to a request is led by its id.** -/
theorem Request.ledBy_opening {request : Request} {id : String} (hid : request.id? = some id)
    (s : Server) : LedBy id (request.reply s).opening := by
  -- Blocks have the id as their header, and the others put it first.
  cases request with
  | version => cases hid
  | status | channels =>
    cases hid
    exact .alone
  | records id' kind =>
    cases hid
    cases kind with
    | instrument | channel => exact .alone
  | menu id' withLocation =>
    cases hid
    exact Listings.ledBy_menuLine id withLocation _
  | samples data withLocation fill =>
    cases hid
    unfold Request.reply
    exact Data.ledBy_replyTo fun sid wave => Data.ledBy_sampleLine data withLocation sid fill wave
  | wave data framing compressed =>
    cases hid
    unfold Request.reply
    exact Data.ledBy_replyTo fun sid wave => Data.ledBy_waveHeader data framing sid wave
  | helicorder data compressed | rsam data period compressed =>
    cases hid
    unfold Request.reply
    exact Data.ledBy_replyTo fun sid _ => Data.ledBy_header data .idOnly sid

/-! ## Lines -/

/-- **Replies bear the ids of their requests.** Whatever the server holds, a reply to a command with
a known keyword and an id starts with that id, and a space or the end of the line follows. Only a
well-formed request for the version is answered without one. -/
theorem Server.replies_bear_ids [Compressor] {s : Server} {line : String} {c : Command}
    {verb : Verb} {id : String} {r : Reply} (hparse : Command.parse? line = some c)
    (hkeyword : verb.keyword = c.keyword) (hid : c.id? = some id)
    (hanswer : (s.answer line).1 = .reply r) :
    (¬ (verb = .version ∧ verb.Fits c) → r.BearsId id) ∧
      (verb = .version → verb.Fits c → r = .line "PROTOCOL_VERSION: 3") := by
  by_cases hfits : verb.Fits c
  · obtain ⟨request, hrequest, hperformed⟩ := answer_of_fits (s := s) hparse hkeyword hfits
    rw [hperformed] at hanswer
    have hreply := Request.eq_reply_of_result (Outcome.eq_ok_of_ofResult hanswer)
    refine ⟨fun hother => ?_, fun hversion _ => ?_⟩
    · obtain ⟨-, hverb, hversion | ⟨id', hid', hsame⟩⟩ := Request.fits_of_ofCommand? hrequest
      · rw [hversion] at hverb
        exact absurd ⟨hverb.symm, hfits⟩ hother
      · have heq : id' = id := Option.some.inj (hid'.symm.trans hid)
        rw [heq] at hsame
        rw [hreply]
        exact Reply.bearsId_of_ledBy (Request.ledBy_opening hsame s)
    · subst hversion
      obtain ⟨-, hversion⟩ := Option.ite_none_right_eq_some.mp hrequest
      rw [hreply, ← Option.some.inj hversion]
      rfl
  · -- A command that is refused is answered, one that is dropped is not.
    refine ⟨fun _ => ?_, fun _ h => absurd h hfits⟩
    by_cases holder : verb.Older
    · rw [answer_of_dropped hparse hkeyword hfits holder] at hanswer
      cases hanswer
    · rw [answer_of_refused hparse hkeyword hfits holder] at hanswer
      rw [← Outcome.reply.inj hanswer, hid]
      have hrefusal : Reply.malformed (some id) =
          .line (id ++ " " ++ "ERROR: malformed command") := by
        rw [String.append_assoc]
        rfl
      rw [hrefusal]
      exact Reply.bearsId_of_ledBy (.spaced _)

/-- A server without channels. -/
def Server.vacant : Server where
  clock := ⟨⟨946728100, 0⟩, 0⟩

/-- A channel that is not there: the id stands twice, and the reply still starts with it. -/
theorem Server.replies_bear_ids_vacant :
    Command.parse? "GETSCNL: 7 AKV EHZ AV -- 946728000 946728002 x" =
        some ⟨"GETSCNL", ["7", "AKV", "EHZ", "AV", "--", "946728000", "946728002", "x"]⟩ ∧
      (vacant.answer "GETSCNL: 7 AKV EHZ AV -- 946728000 946728002 x").1 =
        .reply (.line "7 7 0 AKV EHZ AV -- FN") ∧
      (Reply.line "7 7 0 AKV EHZ AV -- FN").BearsId "7" := by
  have hparse : Command.parse? "GETSCNL: 7 AKV EHZ AV -- 946728000 946728002 x" =
      some ⟨"GETSCNL", ["7", "AKV", "EHZ", "AV", "--", "946728000", "946728002", "x"]⟩ := by
    decide +kernel
  have hanswer : (vacant.answer "GETSCNL: 7 AKV EHZ AV -- 946728000 946728002 x").1 =
      .reply (.line "7 7 0 AKV EHZ AV -- FN") := by
    decide +kernel
  have hkeyword : Verb.getScnl.keyword = "GETSCNL" := rfl
  exact ⟨hparse, hanswer, (replies_bear_ids hparse hkeyword rfl hanswer).1 fun h => nomatch h.1⟩

end Seismic
