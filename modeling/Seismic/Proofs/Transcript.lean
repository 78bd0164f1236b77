import Seismic.Connection
import Seismic.Proofs.Lines
import Seismic.Proofs.Lockstep

/-!
# Transcript — a conversation as its lines, answered in order

A connection answers lines while it still reads, out of a buffer that holds whatever has come in.
A transcript knows nothing of reads or buffers: it takes the lines of the whole stream and answers
them one after another.

* **`Follows`**: a connection that goes on from some point does what the transcript of the rest of
  the stream says;
* **`serveLine_follows`** and **`drain_follows`**: so it is for one line, and for all lines in the
  buffer;
* **`converse_eq_transcript`**: so it is for a whole conversation, however its bytes come in;
* **`output_converse`**: the bytes that go out are those of the transcript's replies;
* **`run_alike`**: how much a transport hands over at once makes no difference to a client.
-/

namespace Seismic

namespace Ending

/-- An ending without the size of a line that is too long, which depends on how much of the line
has been read when it is refused. -/
def blurred : Ending → Ending
  | lineTooLong e => lineTooLong { e with size := 0 }
  | ending => ending

end Ending

/-! ## Transcripts -/

/-- What comes of a list of lines: the lines that were taken, the replies that were written, the
number of commands carried out, what stopped before the last line was carried out, and the server
afterwards. -/
structure Transcript where
  taken : List Bytes
  replies : List Reply
  commands : Nat
  stop : Option Ending
  server : Server

namespace Transcript

/-- A transcript with one more command at its front. -/
def preceded (t : Transcript) (body : Bytes) (replies : List Reply) : Transcript :=
  { t with
    taken := body :: t.taken
    replies := replies ++ t.replies
    commands := t.commands + 1 }

/-- Answers lines one after another, of which nothing is left undone until one is too long, a
command fails or has to wait, or a reply cannot be written. -/
def ofLines (limit : Nat) (tolerance : Connection.Tolerance) :
    List Bytes → Nat → Server → Transcript
  | [], _, server => ⟨[], [], 0, none, server⟩
  | body :: rest, written, server =>
    if limit < body.length then ⟨[], [], 0, some (.lineTooLong ⟨body.length, limit⟩), server⟩
    else
      match server.answer (Line.textOf body) with
      | (.failed e, after) => ⟨[body], [], 0, some (.failed e), after⟩
      | (.waiting, after) => ⟨[body], [], 0, some .waiting, after⟩
      | (.silent, after) => (ofLines limit tolerance rest written after).preceded body []
      | (.reply reply, after) =>
        match Connection.writeFault? tolerance written with
        | some fault => ⟨[body], [], 1, some (.unwritten fault), after⟩
        | none => (ofLines limit tolerance rest (written + 1) after).preceded body [reply]

variable {limit : Nat} {tolerance : Connection.Tolerance}

theorem ofLines_too_long {body : Bytes} (h : limit < body.length) (rest : List Bytes)
    (written : Nat) (server : Server) :
    ofLines limit tolerance (body :: rest) written server =
      ⟨[], [], 0, some (.lineTooLong ⟨body.length, limit⟩), server⟩ := by
  unfold ofLines
  rw [if_pos h]

/-- **What the first line does to a transcript**, whatever lines follow: it is too long, or the
transcript stops at it, or it goes on. -/
theorem ofLines_cases (limit : Nat) (tolerance : Connection.Tolerance) (body : Bytes)
    (written : Nat) (server : Server) :
    (limit < body.length ∧ ∀ rest, ofLines limit tolerance (body :: rest) written server =
      ⟨[], [], 0, some (.lineTooLong ⟨body.length, limit⟩), server⟩) ∨
    (body.length ≤ limit ∧ ∃ commands ending after, ending ≠ .disconnected ∧
      ∀ rest, ofLines limit tolerance (body :: rest) written server =
        ⟨[body], [], commands, some ending, after⟩) ∨
    (body.length ≤ limit ∧ ∃ replies written' after,
      ∀ rest, ofLines limit tolerance (body :: rest) written server =
        (ofLines limit tolerance rest written' after).preceded body replies) := by
  by_cases hlong : limit < body.length
  · exact .inl ⟨hlong, fun rest => ofLines_too_long hlong rest written server⟩
  right
  have hlimit : body.length ≤ limit := Nat.le_of_not_lt hlong
  rcases hanswer : server.answer (Line.textOf body) with ⟨outcome, after⟩
  cases outcome with
  | failed e =>
    refine .inl ⟨hlimit, 0, .failed e, after, nofun, fun rest => ?_⟩
    simp only [ofLines, if_neg hlong, hanswer]
  | waiting =>
    refine .inl ⟨hlimit, 0, .waiting, after, nofun, fun rest => ?_⟩
    simp only [ofLines, if_neg hlong, hanswer]
  | silent =>
    refine .inr ⟨hlimit, [], written, after, fun rest => ?_⟩
    simp only [ofLines, if_neg hlong, hanswer]
  | reply reply =>
    cases hfault : Connection.writeFault? tolerance written with
    | some fault =>
      refine .inl ⟨hlimit, 1, .unwritten fault, after, nofun, fun rest => ?_⟩
      simp only [ofLines, if_neg hlong, hanswer, hfault]
    | none =>
      refine .inr ⟨hlimit, [reply], written + 1, after, fun rest => ?_⟩
      simp only [ofLines, if_neg hlong, hanswer, hfault]

/-- Only lines of the stream are taken, from the first on; and all of them unless something stops
the conversation, which is never a client that leaves. -/
theorem ofLines_complete (limit : Nat) (tolerance : Connection.Tolerance) (lines : List Bytes)
    (written : Nat) (server : Server) :
    (ofLines limit tolerance lines written server).taken <+: lines ∧
      ((ofLines limit tolerance lines written server).stop = none →
        (ofLines limit tolerance lines written server).taken = lines) ∧
      (ofLines limit tolerance lines written server).stop ≠ some .disconnected := by
  induction lines generalizing written server with
  | nil => exact ⟨List.prefix_rfl, fun _ => rfl, nofun⟩
  | cons body rest ih =>
    rcases ofLines_cases limit tolerance body written server with
      ⟨_, hline⟩ | ⟨_, commands, ending, after, hending, hline⟩ | ⟨_, replies, written', after, hline⟩
    · rw [hline]
      exact ⟨List.nil_prefix, nofun, nofun⟩
    · rw [hline]
      exact ⟨⟨rest, rfl⟩, nofun, mt Option.some.inj hending⟩
    · rw [hline]
      obtain ⟨hbegins, hall, hstop⟩ := ih written' after
      exact ⟨List.cons_prefix_cons.mpr ⟨rfl, hbegins⟩,
        fun h => congrArg (body :: ·) (hall h), hstop⟩

/-- **Which lines are taken.** A transcript comes to a line exactly if nothing stops it at the lines
before, and it takes the line exactly if that is within the limit. -/
theorem isPrefix_taken_iff (earlier : List Bytes) (body : Bytes) (later : List Bytes)
    (written : Nat) (server : Server) :
    earlier ++ [body] <+:
        (ofLines limit tolerance (earlier ++ body :: later) written server).taken ↔
      body.length ≤ limit ∧ (ofLines limit tolerance earlier written server).stop = none := by
  induction earlier generalizing written server with
  | nil =>
    rw [List.nil_append, List.nil_append]
    rcases ofLines_cases limit tolerance body written server with
      ⟨hlong, hline⟩ | ⟨hlimit, _, _, _, _, hline⟩ | ⟨hlimit, _, _, _, hline⟩
    · rw [hline]
      exact ⟨fun h => absurd h.length_le (Nat.not_succ_le_zero 0),
        fun h => absurd h.1 (Nat.not_le.mpr hlong)⟩
    · rw [hline]
      exact ⟨fun _ => ⟨hlimit, rfl⟩, fun _ => List.prefix_rfl⟩
    · rw [hline]
      exact ⟨fun _ => ⟨hlimit, rfl⟩, fun _ => ⟨_, rfl⟩⟩
  | cons first rest ih =>
    rw [List.cons_append, List.cons_append]
    rcases ofLines_cases limit tolerance first written server with
      ⟨_, hline⟩ | ⟨_, _, _, _, _, hline⟩ | ⟨_, replies, written', after, hline⟩
    · rw [hline, hline]
      exact ⟨fun h => absurd h.length_le (Nat.not_succ_le_zero _), nofun⟩
    · -- The transcript stops at an earlier line, so it does not come to this one.
      rw [hline, hline]
      refine ⟨fun h => ?_, nofun⟩
      have hlength := h.length_le
      rw [List.length_cons, List.length_append, List.length_singleton, List.length_singleton]
        at hlength
      omega
    · rw [hline, hline]
      show first :: (rest ++ [body]) <+: first :: _ ↔ _
      rw [List.cons_prefix_cons, ih written' after]
      exact and_iff_right rfl

end Transcript

namespace Connection

/-! ## What comes in -/

/-- The bytes that come in before a read fails. -/
def delivered : List (Option Bytes) → Bytes
  | [] | none :: _ => []
  | some bytes :: rest => bytes ++ delivered rest

/-- Whether a read fails. -/
def fails (reads : List (Option Bytes)) : Bool := reads.any Option.isNone

/-- The bytes that a client sends before it resets the connection. -/
def sent : List Arrival → Bytes
  | [] | .reset :: _ => []
  | .bytes chunk :: rest => chunk ++ sent rest

/-- The reads of a chunk put together are the chunk. By induction along the cutting, each piece of
which is followed by those of the rest. -/
theorem flatten_cut (transport : Transport) (chunk : Bytes) :
    (transport.cut chunk).flatten = chunk := by
  induction chunk using Transport.cut.induct transport with
  | case1 chunk hempty =>
    rw [Transport.cut, if_pos hempty, List.isEmpty_iff.mp hempty, List.flatten_nil]
  | case2 chunk hmore ih =>
    rw [Transport.cut, if_neg hmore, List.flatten_cons, ih, List.take_append_drop]

theorem delivered_append_some (pieces : List Bytes) (rest : List (Option Bytes)) :
    delivered (pieces.map some ++ rest) = pieces.flatten ++ delivered rest := by
  induction pieces with
  | nil => rfl
  | cons piece more ih =>
    rw [List.map_cons, List.cons_append, delivered, ih, List.flatten_cons, List.append_assoc]

theorem delivered_reads (transport : Transport) (arrivals : List Arrival) :
    delivered (transport.reads arrivals) = sent arrivals := by
  unfold Transport.reads
  induction arrivals with
  | nil => rfl
  | cons arrival rest ih =>
    rw [List.flatMap_cons]
    cases arrival with
    | bytes chunk => rw [delivered_append_some, flatten_cut, ih, sent]
    | reset => rfl

theorem fails_reads (transport : Transport) (arrivals : List Arrival) :
    fails (transport.reads arrivals) = arrivals.any (· = .reset) := by
  unfold Transport.reads fails
  induction arrivals with
  | nil => rfl
  | cons arrival rest ih =>
    rw [List.flatMap_cons, List.any_append, ih, List.any_cons]
    cases arrival with
    | bytes chunk =>
      have hpieces : ((transport.cut chunk).map some).any Option.isNone = false := by simp
      rw [hpieces]
      simp
    | reset => rfl

/-- How a conversation ends that nothing has stopped at its lines, by what follows the last. -/
def atEnd (limit : Nat) (failing : Bool) (tail : Bytes) : Ending :=
  if limit < tail.length then .lineTooLong ⟨tail.length, limit⟩
  else if failing then .reset
  else if tail.isEmpty then .disconnected
  else .truncated

theorem blurred_eq_disconnected {ending : Ending} :
    ending.blurred = .disconnected ↔ ending = .disconnected := by
  cases ending with
  | lineTooLong e => exact ⟨nofun, nofun⟩
  | _ => exact Iff.rfl

theorem atEnd_eq_disconnected {limit : Nat} {failing : Bool} {tail : Bytes} :
    atEnd limit failing tail = .disconnected ↔ failing = false ∧ tail = [] := by
  unfold atEnd
  cases tail with
  | nil => cases failing <;> simp
  | cons b rest => cases failing <;> split <;> simp

/-- The transcript of a conversation: of all lines of what comes in, from when the connection is
counted. -/
def transcript (limit : Nat) (tolerance : Tolerance) (reads : List (Option Bytes))
    (server : Server) : Transcript :=
  .ofLines limit tolerance (Stream.lines (delivered reads)) 0 (accept server).server

/-! ## Following a transcript -/

/-- A connection that goes on from `c` with `reads` to come ends as the transcript of its buffer and
those reads says. The transcript starts from a server that is like the connection's up to counters
that no reply shows. -/
structure Follows (limit : Nat) (tolerance : Tolerance) (reads : List (Option Bytes))
    (c : Connection) (t : Transcript) (result : Ending × Connection) : Prop where
  ending : result.1.blurred =
    (t.stop.getD (atEnd limit (fails reads) (Stream.tail (c.buffer ++ delivered reads)))).blurred
  replies : result.2.replies = c.replies ++ t.replies
  commands : result.2.server.counters.commands =
    c.server.counters.commands + UInt64.ofNat t.commands
  server : result.2.server.Alike (· = ·) t.server
  bytes : ∃ n, c.buffer ++ delivered (reads.take n) = Stream.joined t.taken ++ result.2.buffer

/-- The transcript of what is left to answer. -/
def remaining (limit : Nat) (tolerance : Tolerance) (reads : List (Option Bytes)) (c : Connection)
    (s : Server) : Transcript :=
  .ofLines limit tolerance (Stream.lines (c.buffer ++ delivered reads)) c.replies.length s

variable {limit : Nat} {tolerance : Tolerance} {reads : List (Option Bytes)} {c : Connection}
  {s : Server} {result : Ending × Connection}

theorem answer_alike {t : Server} (h : s.Alike (· = ·) t) (line : String) :
    (s.answer line).1 = (t.answer line).1 ∧ (s.answer line).2.Alike (· = ·) (t.answer line).2 ∧
      (s.answer line).2.counters = s.counters := by
  obtain ⟨hsame, hafter, _, _, hcounters⟩ :=
    (Archive.congruence_eq s.policy s.clock.now).answer_alike h line
  exact ⟨hsame, hafter, hcounters⟩

theorem alike_count (h : c.server.Alike (· = ·) s) {f : Counters → Counters}
    (hf : ∀ k, (f k).active = k.active) : (c.count f).server.Alike (· = ·) s :=
  { h with active := (hf c.server.counters).trans h.active }

/-- A read brings what is already part of the stream. -/
theorem stream_receive (bytes : Bytes) (rest : List (Option Bytes)) (c : Connection) :
    (c.receive bytes).buffer ++ delivered rest = c.buffer ++ delivered (some bytes :: rest) :=
  List.append_assoc _ _ _

theorem remaining_receive (limit : Nat) (tolerance : Tolerance) (bytes : Bytes)
    (rest : List (Option Bytes)) (c : Connection) (s : Server) :
    remaining limit tolerance rest (c.receive bytes) s =
      remaining limit tolerance (some bytes :: rest) c s := by
  unfold remaining
  rw [stream_receive]
  rfl

/-! ### Conversations that stop

The connection has not moved: a line is too long, or there is none and nothing more comes in. -/

theorem follows_too_long (hs : c.server.Alike (· = ·) s) (h : limit < (Line.body c.buffer).length) :
    Follows limit tolerance reads c (remaining limit tolerance reads c s)
      (.lineTooLong ⟨(Line.body c.buffer).length, limit⟩, c) := by
  have hbytes : ∃ n, c.buffer ++ delivered (reads.take n) = Stream.joined [] ++ c.buffer :=
    ⟨0, by rw [List.take_zero, delivered, List.append_nil, Stream.joined_nil, List.nil_append]⟩
  unfold remaining
  rcases Line.too_long_of_append (delivered reads) h with
    ⟨first, rest, hlines, hlong⟩ | ⟨hlines, hlong⟩
  · rw [hlines, Transcript.ofLines_too_long hlong]
    exact ⟨rfl, (List.append_nil _).symm, (UInt64.add_zero _).symm, hs, hbytes⟩
  · rw [hlines]
    refine ⟨?_, (List.append_nil _).symm, (UInt64.add_zero _).symm, hs, hbytes⟩
    show _ = (atEnd limit (fails reads) (Stream.tail (c.buffer ++ delivered reads))).blurred
    rw [atEnd, if_pos hlong]
    rfl

theorem atEnd_of_short {failing : Bool} {tail : Bytes} (h : tail.length ≤ limit) :
    atEnd limit failing tail =
      if failing then .reset else if tail.isEmpty then .disconnected else .truncated :=
  if_neg (Nat.not_lt.mpr h)

/-- Where nothing more comes in, what is left in the buffer is no line. -/
theorem remaining_at_end (limit : Nat) (tolerance : Tolerance) (s : Server)
    (hfree : 10 ∉ c.buffer) (hreads : delivered reads = []) :
    remaining limit tolerance reads c s = ⟨[], [], 0, none, s⟩ := by
  unfold remaining
  rw [hreads, List.append_nil, Stream.lines_eq_nil hfree]
  rfl

theorem follows_at_end {ending : Ending} (hs : c.server.Alike (· = ·) s) (hfree : 10 ∉ c.buffer)
    (hreads : delivered reads = []) (hending : ending = atEnd limit (fails reads) c.buffer) :
    Follows limit tolerance reads c (remaining limit tolerance reads c s) (ending, c) := by
  rw [remaining_at_end limit tolerance s hfree hreads]
  refine ⟨?_, (List.append_nil _).symm, (UInt64.add_zero _).symm, hs, 0, ?_⟩
  · rw [hreads, List.append_nil, Stream.tail_eq_self hfree, hending]
    rfl
  · rw [List.take_zero, delivered, List.append_nil, Stream.joined_nil, List.nil_append]

/-! ### One line -/

section OneLine

variable {body rest : Bytes}

/-- The connection that has taken the first line off its buffer. -/
theorem follows_of_rest {c' : Connection} {s' : Server} {replies : List Reply}
    (hbuffer : c.buffer = body ++ 10 :: rest) (hbody : 10 ∉ body)
    (hremaining : remaining limit tolerance reads c s =
      (remaining limit tolerance reads c' s').preceded body replies)
    (hrest : c'.buffer = rest) (hreplies : c'.replies = c.replies ++ replies)
    (hcommands : c'.server.counters.commands = c.server.counters.commands + 1)
    (h : Follows limit tolerance reads c' (remaining limit tolerance reads c' s') result) :
    Follows limit tolerance reads c (remaining limit tolerance reads c s) result := by
  obtain ⟨hending, hwritten, hcount, hserver, n, hbytes⟩ := h
  rw [hremaining]
  refine ⟨?_, ?_, ?_, hserver, n, ?_⟩
  · rw [hending, hbuffer, List.append_assoc, List.cons_append, Stream.tail_append hbody, hrest]
    rfl
  · rw [hwritten, hreplies, List.append_assoc]
    rfl
  · -- The command of this line comes before those of the rest.
    rw [hcount, hcommands, UInt64.add_assoc]
    show _ = c.server.counters.commands + UInt64.ofNat (_ + 1)
    rw [UInt64.ofNat_add, UInt64.add_comm 1]
    rfl
  · show _ = Stream.joined (body :: _) ++ _
    rw [hbuffer, Stream.joined_cons, List.append_assoc, List.cons_append, List.append_assoc,
      List.cons_append, ← hbytes, hrest]

theorem follows_of_stop {c' : Connection} {ending : Ending} {commands : Nat} {after : Server}
    (hbuffer : c.buffer = body ++ 10 :: rest)
    (hremaining : remaining limit tolerance reads c s = ⟨[body], [], commands, some ending, after⟩)
    (hrest : c'.buffer = rest) (hreplies : c'.replies = c.replies)
    (hcommands : c'.server.counters.commands =
      c.server.counters.commands + UInt64.ofNat commands)
    (hserver : c'.server.Alike (· = ·) after) :
    Follows limit tolerance reads c (remaining limit tolerance reads c s) (ending, c') := by
  rw [hremaining]
  refine ⟨rfl, ?_, hcommands, hserver, 0, ?_⟩
  · rw [hreplies, List.append_nil]
  · rw [List.take_zero, delivered, hbuffer, hrest, Stream.joined_cons, List.append_nil,
      List.append_assoc, List.cons_append, Stream.joined_nil, List.nil_append]

theorem remaining_of_line (limit : Nat) (tolerance : Tolerance) (reads : List (Option Bytes))
    (s : Server) (hbuffer : c.buffer = body ++ 10 :: rest) (hbody : 10 ∉ body) :
    remaining limit tolerance reads c s =
      Transcript.ofLines limit tolerance (body :: Stream.lines (rest ++ delivered reads))
        c.replies.length s := by
  unfold remaining
  rw [hbuffer, List.append_assoc, List.cons_append, Stream.lines_append hbody]

variable [Compressor]

theorem serveLine_of_answer {line : String} {outcome : Outcome}
    (h : c.server.answer line = (outcome, s)) :
    serveLine tolerance c line =
      match outcome with
      | .failed e => (some (.failed e), { c with server := s })
      | .waiting => (some .waiting, { c with server := s })
      | .silent => (none, { c with server := s }.count (·.commandDone))
      | .reply reply => write tolerance ({ c with server := s }.count (·.commandDone)) reply := by
  simp only [serveLine, h]
  cases outcome with
  | failed e => rfl
  | waiting => rfl
  | silent => rfl
  | reply reply => rfl

/-- Answering the first line of the buffer either stops the conversation, and its transcript ends
with that line, or leaves a connection whose transcript is the rest of it. -/
theorem serveLine_cases (tolerance : Tolerance) (reads : List (Option Bytes))
    (hs : c.server.Alike (· = ·) s) (hbuffer : c.buffer = body ++ 10 :: rest) (hbody : 10 ∉ body)
    (hlimit : body.length ≤ limit) :
    (∃ ending c' commands after,
      serveLine tolerance { c with buffer := rest } (Line.textOf body) = (some ending, c') ∧
      remaining limit tolerance reads c s = ⟨[body], [], commands, some ending, after⟩ ∧
      c'.buffer = rest ∧ c'.replies = c.replies ∧
      c'.server.counters.commands = c.server.counters.commands + UInt64.ofNat commands ∧
      c'.server.Alike (· = ·) after) ∨
    (∃ c' s' replies,
      serveLine tolerance { c with buffer := rest } (Line.textOf body) = (none, c') ∧
      remaining limit tolerance reads c s =
        (remaining limit tolerance reads c' s').preceded body replies ∧
      c'.buffer = rest ∧ c'.replies = c.replies ++ replies ∧
      c'.server.counters.commands = c.server.counters.commands + 1 ∧
      c'.server.Alike (· = ·) s') := by
  have hremaining := remaining_of_line limit tolerance reads s hbuffer hbody
  rw [Transcript.ofLines, if_neg (Nat.not_lt.mpr hlimit)] at hremaining
  obtain ⟨hsame, hafter, hcounters⟩ := answer_alike hs (Line.textOf body)
  rcases hanswer : s.answer (Line.textOf body) with ⟨outcome, after⟩
  rcases hanswered : c.server.answer (Line.textOf body) with ⟨outcome', after'⟩
  rw [hanswer, hanswered] at hsame hafter
  rw [hanswered] at hcounters
  rw [hanswer] at hremaining
  simp only at hsame hafter hcounters
  subst hsame
  -- The server has answered and the line is off the buffer; the command may still be counted.
  let answered : Connection := { c with server := after', buffer := rest }
  let counted : Connection := answered.count (·.commandDone)
  have hcounted : counted.server.counters.commands = c.server.counters.commands + 1 :=
    congrArg (·.commands + 1) hcounters
  have huncounted : answered.server.counters.commands =
      c.server.counters.commands + UInt64.ofNat 0 :=
    (congrArg (·.commands) hcounters).trans (UInt64.add_zero _).symm
  have halike : counted.server.Alike (· = ·) after :=
    alike_count (c := answered) hafter fun _ => rfl
  rw [serveLine_of_answer (c := { c with buffer := rest }) hanswered]
  cases outcome' with
  | failed e => exact .inl ⟨_, answered, 0, after, rfl, hremaining, rfl, rfl, huncounted, hafter⟩
  | waiting => exact .inl ⟨_, answered, 0, after, rfl, hremaining, rfl, rfl, huncounted, hafter⟩
  | silent =>
    exact .inr ⟨counted, after, [], rfl, hremaining, rfl, (List.append_nil _).symm, hcounted,
      halike⟩
  | reply reply =>
    simp only [write]
    cases hfault : writeFault? tolerance counted.replies.length with
    | some fault =>
      have hstop : remaining limit tolerance reads c s =
          ⟨[body], [], 1, some (.unwritten fault), after⟩ := by
        rw [hremaining]
        simp only [show writeFault? tolerance c.replies.length = some fault from hfault]
      exact .inl ⟨_, counted, 1, after, rfl, hstop, rfl, rfl, hcounted, halike⟩
    | none =>
      let written : Connection :=
        { counted with replies := counted.replies ++ [reply] }.count (·.sent reply.bytes.length)
      have hnext : remaining limit tolerance reads c s =
          (remaining limit tolerance reads written after).preceded body [reply] := by
        rw [hremaining]
        simp only [show writeFault? tolerance c.replies.length = none from hfault]
        have hlength : written.replies.length = c.replies.length + 1 := List.length_append
        show _ = (Transcript.ofLines limit tolerance (Stream.lines (rest ++ delivered reads))
          written.replies.length after).preceded body [reply]
        rw [hlength]
      refine .inr ⟨written, after, [reply], rfl, hnext, rfl, rfl, hcounted, ?_⟩
      exact alike_count (c := { counted with replies := counted.replies ++ [reply] }) halike
        fun _ => rfl

/-- **One line.** Answering the first line of the buffer either ends the conversation as the
transcript says, or leaves a connection that has the rest of the transcript to follow. -/
theorem serveLine_follows (tolerance : Tolerance) (reads : List (Option Bytes))
    (hs : c.server.Alike (· = ·) s) (hbuffer : c.buffer = body ++ 10 :: rest) (hbody : 10 ∉ body)
    (hlimit : body.length ≤ limit) :
    (∃ ending c', serveLine tolerance { c with buffer := rest } (Line.textOf body) =
        (some ending, c') ∧
      Follows limit tolerance reads c (remaining limit tolerance reads c s) (ending, c')) ∨
    (∃ c' s', serveLine tolerance { c with buffer := rest } (Line.textOf body) = (none, c') ∧
      c'.buffer = rest ∧ c'.server.Alike (· = ·) s' ∧
      ∀ result, Follows limit tolerance reads c' (remaining limit tolerance reads c' s') result →
        Follows limit tolerance reads c (remaining limit tolerance reads c s) result) := by
  rcases serveLine_cases tolerance reads hs hbuffer hbody hlimit with
    ⟨ending, c', commands, after, hserved, hstop, hrest, hreplies, hcommands, hafter⟩ |
    ⟨c', s', replies, hserved, hnext, hrest, hreplies, hcommands, hafter⟩
  · exact .inl ⟨ending, c', hserved,
      follows_of_stop hbuffer hstop hrest hreplies hcommands hafter⟩
  · exact .inr ⟨c', s', hserved, hrest, hafter, fun result h =>
      follows_of_rest hbuffer hbody hnext hrest hreplies hcommands h⟩

end OneLine

variable [Compressor]

/-! ### All lines in the buffer -/

theorem drain_of_error {e : LineTooLong} (h : Line.split limit c.buffer = .error e) :
    drain limit tolerance c = (some (.lineTooLong e), c) := by
  rw [drain]
  split
  · next e' h' =>
    rw [h] at h'
    cases h'
    rfl
  · next h' => rw [h] at h'; cases h'
  · next line h' => rw [h] at h'; cases h'

theorem drain_of_none (h : Line.split limit c.buffer = .ok none) :
    drain limit tolerance c = (none, c) := by
  rw [drain]
  split
  · next e h' => rw [h] at h'; cases h'
  · rfl
  · next line h' => rw [h] at h'; cases h'

theorem drain_of_line {line : Line} (h : Line.split limit c.buffer = .ok (some line)) :
    drain limit tolerance c =
      match serveLine tolerance { c with buffer := c.buffer.drop line.consumed } line.text with
      | (some ending, c') => (some ending, c')
      | (none, c') => drain limit tolerance c' := by
  rw [drain]
  split
  · next e h' => rw [h] at h'; cases h'
  · next h' => rw [h] at h'; cases h'
  · next line' h' =>
    rw [h] at h'
    cases h'
    rcases serveLine tolerance { c with buffer := c.buffer.drop line.consumed } line.text with
      ⟨_ | ending, c'⟩
    · rfl
    · rfl

/-- **All lines in the buffer.** What goes on when no complete line is left may rely on a buffer
that is short and free of newlines. -/
theorem drain_follows {proceed : Connection → Ending × Connection}
    (hproceed : ∀ c' s', c'.server.Alike (· = ·) s' → 10 ∉ c'.buffer → c'.buffer.length ≤ limit →
      Follows limit tolerance reads c' (remaining limit tolerance reads c' s') (proceed c'))
    (hs : c.server.Alike (· = ·) s) :
    Follows limit tolerance reads c (remaining limit tolerance reads c s)
      (match drain limit tolerance c with
      | (some ending, c') => (ending, c')
      | (none, c') => proceed c') := by
  -- Each line that is taken off shortens the buffer.
  induction h : c.buffer.length using Nat.strongRecOn generalizing c s with
  | _ n ih =>
    rcases Line.split_cases limit c.buffer with ⟨hlong, hsplit⟩ |
      ⟨body, rest, hbody, hlimit, hbuffer, hsplit⟩ | ⟨hfree, hshort, hsplit⟩
    · rw [drain_of_error hsplit]
      exact follows_too_long hs hlong
    · have hdrop : c.buffer.drop (body.length + 1) = rest :=
        hbuffer ▸ Line.drop_length_add_one body rest
      rw [drain_of_line hsplit]
      simp only [hdrop]
      rcases serveLine_follows tolerance reads hs hbuffer hbody hlimit with
        ⟨ending, c', hserved, hfollows⟩ | ⟨c', s', hserved, hrest, hs', hnext⟩
      · rw [hserved]
        exact hfollows
      · rw [hserved]
        have hshorter : c'.buffer.length < n := by
          rw [← h, hrest, hbuffer, List.length_append, List.length_cons]
          omega
        exact hnext _ (ih _ hshorter hs' rfl)
    · rw [drain_of_none hsplit]
      exact hproceed c s hs hfree hshort

/-! ### All reads -/

/-- What a connection does when no complete line is left in its buffer. -/
def proceed (limit : Nat) (tolerance : Tolerance) :
    List (Option Bytes) → Connection → Ending × Connection
  | [], c => (c.endOfStream, c)
  | none :: _, c => (.reset, c)
  | some bytes :: rest, c => loop limit tolerance rest (c.receive bytes)

theorem loop_eq_proceed (limit : Nat) (tolerance : Tolerance) (reads : List (Option Bytes))
    (c : Connection) :
    loop limit tolerance reads c =
      match drain limit tolerance c with
      | (some ending, c') => (ending, c')
      | (none, c') => proceed limit tolerance reads c' := by
  unfold loop
  rcases drain limit tolerance c with ⟨_ | ending, c'⟩
  · rcases reads with _ | ⟨_ | bytes, rest⟩
    · rfl
    · rfl
    · rfl
  · rfl

/-- **All reads.** -/
theorem loop_follows (limit : Nat) (tolerance : Tolerance) (reads : List (Option Bytes))
    (hs : c.server.Alike (· = ·) s) :
    Follows limit tolerance reads c (remaining limit tolerance reads c s)
      (loop limit tolerance reads c) := by
  induction reads generalizing c s with
  | nil =>
    rw [loop_eq_proceed]
    refine drain_follows (fun c' s' hs' hfree hshort => ?_) hs
    refine follows_at_end hs' hfree rfl ?_
    rw [atEnd_of_short hshort]
    rfl
  | cons read rest ih =>
    rw [loop_eq_proceed]
    -- A read, failed or not, only happens when no complete line is left in the buffer.
    refine drain_follows (fun c' s' hs' hfree hshort => ?_) hs
    cases read with
    | none =>
      refine follows_at_end hs' hfree rfl ?_
      rw [atEnd_of_short hshort]
      rfl
    | some bytes =>
      have hreceived : (c'.receive bytes).server.Alike (· = ·) s' :=
        alike_count (c := { c' with buffer := c'.buffer ++ bytes }) hs' fun _ => rfl
      obtain ⟨hending, hreplies, hcommands, hserver, n, hbytes⟩ := ih hreceived
      have hremaining := remaining_receive limit tolerance bytes rest c' s'
      rw [hremaining] at hending hreplies hcommands hserver hbytes
      rw [stream_receive] at hending
      refine ⟨hending, hreplies, hcommands, hserver, n + 1, ?_⟩
      exact (List.append_assoc _ _ _).symm.trans hbytes

/-! ## Conversations

What remains to answer when a connection is accepted is everything. -/

theorem converse_eq_loop (limit : Nat) (tolerance : Tolerance) (reads : List (Option Bytes))
    (server : Server) :
    ∃ counters : Counters,
      counters.commands = (loop limit tolerance reads (accept server)).2.server.counters.commands ∧
      converse limit tolerance reads server =
        ((loop limit tolerance reads (accept server)).1,
          (loop limit tolerance reads (accept server)).2.count fun _ => counters) := by
  unfold converse
  rcases loop limit tolerance reads (accept server) with ⟨ending, c⟩
  cases ending with
  | waiting => exact ⟨c.server.counters, rfl, rfl⟩
  | _ => exact ⟨c.server.counters.ended, rfl, rfl⟩

/-- A conversation comes out as a transcript says: with its replies, commands and server, and with
its ending up to the size of a line that is too long. What has been read is the lines taken and what
is left in the buffer, nothing else. -/
structure Realizes (limit : Nat) (reads : List (Option Bytes)) (server : Server) (t : Transcript)
    (result : Ending × Connection) : Prop where
  replies : result.2.replies = t.replies
  commands : result.2.server.counters.commands =
    server.counters.commands + UInt64.ofNat t.commands
  server : { result.2.server with counters := t.server.counters } = t.server
  ending : result.1.blurred =
    (t.stop.getD (atEnd limit (fails reads) (Stream.tail (delivered reads)))).blurred
  bytes : ∃ n, delivered (reads.take n) = Stream.joined t.taken ++ result.2.buffer

theorem realizes_transcript (limit : Nat) (tolerance : Tolerance) (reads : List (Option Bytes))
    (server : Server) :
    Realizes limit reads server (transcript limit tolerance reads server)
      (converse limit tolerance reads server) := by
  have halike : (accept server).server.Alike (· = ·) (accept server).server :=
    ⟨rfl, rfl, rfl, rfl, rfl, rfl⟩
  obtain ⟨hending, hreplies, hcommands, hserver, hbytes⟩ :=
    loop_follows limit tolerance reads halike
  obtain ⟨counters, hcounters, hconverse⟩ := converse_eq_loop limit tolerance reads server
  rw [hconverse]
  -- The end of a connection is counted, which changes nothing but counters.
  refine ⟨hreplies, hcounters.trans hcommands, ?_, hending, hbytes⟩
  obtain ⟨harchive, hpool, hpolicy, hcatalog, _, hclock⟩ := hserver
  show Server.mk _ _ _ _ _ _ = (transcript limit tolerance reads server).server
  have hshape (u : Server) :
      u = ⟨u.archive, u.pool, u.policy, u.catalog, u.counters, u.clock⟩ := rfl
  rw [hshape (transcript limit tolerance reads server).server]
  congr 1

/-! ### What goes out -/

/-- A reply is written as a whole or, if the client no longer takes it, not at all. -/
theorem output_write (tolerance : Tolerance) (c : Connection) (reply : Reply) :
    (write tolerance c reply).2.output =
      c.output ++ if (write tolerance c reply).1 = none then reply.bytes else [] := by
  unfold write output
  cases writeFault? tolerance c.replies.length with
  | some fault => exact (List.append_nil _).symm
  | none =>
    show (c.replies ++ [reply]).flatMap Reply.bytes = c.replies.flatMap Reply.bytes ++ reply.bytes
    rw [List.flatMap_append, List.flatMap_singleton]

/-- **The bytes that go out are those of the transcript's replies**, one reply after the other and
nothing between them. -/
theorem output_converse (limit : Nat) (tolerance : Tolerance) (reads : List (Option Bytes))
    (server : Server) :
    (converse limit tolerance reads server).2.output =
      (transcript limit tolerance reads server).replies.flatMap Reply.bytes := by
  unfold output
  rw [(realizes_transcript limit tolerance reads server).replies]

/-- Two conversations about one stream come out alike, however it is cut into reads: the transcript
depends on nothing else. -/
theorem converse_alike {reads reads' : List (Option Bytes)} (limit : Nat) (tolerance : Tolerance)
    (server : Server) (hsame : delivered reads' = delivered reads)
    (hfails : fails reads' = fails reads) :
    (converse limit tolerance reads' server).2.replies =
      (converse limit tolerance reads server).2.replies ∧
    (converse limit tolerance reads' server).2.server.counters.commands =
      (converse limit tolerance reads server).2.server.counters.commands ∧
    (converse limit tolerance reads' server).1.blurred =
      (converse limit tolerance reads server).1.blurred := by
  have hrealizes := realizes_transcript limit tolerance reads server
  have hrealizes' := realizes_transcript limit tolerance reads' server
  have htranscript : transcript limit tolerance reads' server =
      transcript limit tolerance reads server := by
    unfold transcript
    rw [hsame]
  rw [htranscript] at hrealizes'
  refine ⟨hrealizes'.replies.trans hrealizes.replies.symm,
    hrealizes'.commands.trans hrealizes.commands.symm, ?_⟩
  rw [hrealizes'.ending, hrealizes.ending, hsame, hfails]

/-- **A conversation is its lines, answered in order**, however the bytes of the stream are cut into
reads. The client is seen to leave in order exactly if nothing stops the conversation, no read fails
and nothing follows the last newline. And two conversations about one stream come out alike. -/
theorem converse_eq_transcript (limit : Nat) (tolerance : Tolerance)
    (reads : List (Option Bytes)) (server : Server) :
    Realizes limit reads server (transcript limit tolerance reads server)
      (converse limit tolerance reads server) ∧
    Stream.joined (Stream.lines (delivered reads)) ++ Stream.tail (delivered reads) =
      delivered reads ∧
    (∀ body ∈ Stream.lines (delivered reads), 10 ∉ body) ∧
    (transcript limit tolerance reads server).taken <+: Stream.lines (delivered reads) ∧
    ((transcript limit tolerance reads server).stop = none →
      (transcript limit tolerance reads server).taken = Stream.lines (delivered reads)) ∧
    ((converse limit tolerance reads server).1 = .disconnected ↔
      (transcript limit tolerance reads server).stop = none ∧ fails reads = false ∧
        Stream.tail (delivered reads) = []) ∧
    ∀ reads', delivered reads' = delivered reads → fails reads' = fails reads →
      (converse limit tolerance reads' server).2.replies =
        (converse limit tolerance reads server).2.replies ∧
      (converse limit tolerance reads' server).2.server.counters.commands =
        (converse limit tolerance reads server).2.server.counters.commands ∧
      (converse limit tolerance reads' server).1.blurred =
        (converse limit tolerance reads server).1.blurred := by
  have hrealizes := realizes_transcript limit tolerance reads server
  obtain ⟨htaken, hcomplete, hstop⟩ := Transcript.ofLines_complete limit tolerance
    (Stream.lines (delivered reads)) 0 (accept server).server
  refine ⟨hrealizes, Stream.joined_lines_append_tail _, (Stream.newline_not_mem _).1, htaken,
    hcomplete, ?_, fun _ hsame hfails => converse_alike limit tolerance server hsame hfails⟩
  rw [← blurred_eq_disconnected, hrealizes.ending, blurred_eq_disconnected]
  cases hstopped : (transcript limit tolerance reads server).stop with
  | none =>
    rw [Option.getD_none, atEnd_eq_disconnected]
    exact ⟨fun h => ⟨rfl, h⟩, fun h => h.2⟩
  | some ending =>
    rw [Option.getD_some]
    refine ⟨fun h => ?_, nofun⟩
    exact absurd (hstopped.trans (congrArg some h)) hstop

/-! ## Transports

A transport decides how much one read brings. None of that shows in what a client gets. -/

/-- **Over any transport a client gets the same**: the same bytes, for the same commands, and the
same ending up to the size of a line that is too long. -/
theorem run_alike (limit : Nat) (tolerance : Tolerance) (arrivals : List Arrival) (server : Server)
    (transport transport' : Transport) :
    (run limit tolerance arrivals server transport').2.output =
      (run limit tolerance arrivals server transport).2.output ∧
    (run limit tolerance arrivals server transport').2.server.counters.commands =
      (run limit tolerance arrivals server transport).2.server.counters.commands ∧
    (run limit tolerance arrivals server transport').1.blurred =
      (run limit tolerance arrivals server transport).1.blurred := by
  have hsame : delivered (transport'.reads arrivals) = delivered (transport.reads arrivals) := by
    rw [delivered_reads, delivered_reads]
  have hfails : fails (transport'.reads arrivals) = fails (transport.reads arrivals) := by
    rw [fails_reads, fails_reads]
  obtain ⟨hreplies, hcommands, hending⟩ := converse_alike limit tolerance server hsame hfails
  exact ⟨congrArg (List.flatMap Reply.bytes) hreplies, hcommands, hending⟩

end Connection

end Seismic
