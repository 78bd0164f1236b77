import Mathlib.Algebra.GroupWithZero.Nat
import Seismic.Proofs.Clients
import Seismic.Proofs.History

/-!
# Balance — what conversations add to the counters

The counters are touched at many places: when a connection begins and when it ends, after a read,
after a line has been carried out and after a reply has gone out. A conversation may break off
between any two of them.

* **`Connection.Counted`** is what has been counted between two moments of a connection, and
  **`counted_of_happens`** says it of a whole history;
* **`Connection.Page.balances`**: so the counters show exactly what one conversation has done,
  however it ended, and its own status requests count it;
* **`Connection.counters_balance`**: and what any number of conversations have done that came one
  after another.
-/

namespace Seismic

/-- A line has been carried out without an error, be there a reply or not. -/
def Outcome.carriedOut : Outcome → Bool
  | reply _ | silent => true
  | failed _ | waiting => false

namespace Connection

/-! ## One connection -/

/-- The deed is a line that is carried out without an error. -/
def Entry.completed : Entry → Bool
  | ⟨_, .read _⟩ => false
  | ⟨c, .serve line⟩ => (c.server.answer line.text).1.carriedOut

/-- The reply to a status request gives the number of connections. -/
theorem exists_status_of_answer {s : Server} {line id : String} {threshold : Time} {reply : Reply}
    (hline : Reading.ofLine line = .wellFormed (.status id threshold))
    (hanswer : (s.answer line).1 = .reply reply) :
    ∃ version channels age,
      Outcome.reply reply = .status id version channels age s.counters.active.toNat := by
  rw [Server.eq_reply_of_answer hline hanswer]
  exact ⟨_, _, _, rfl⟩

variable [Compressor]

/-- What has been counted from `c` to `c'`: so many commands, so many bytes read, and the bytes of
the replies that have been written. Connections have neither come nor gone. -/
structure Counted (c : Connection) (commands bytesRead : Nat) (c' : Connection) : Prop where
  accepted : c'.server.counters.accepted = c.server.counters.accepted
  active : c'.server.counters.active = c.server.counters.active
  commands : c'.server.counters.commands = c.server.counters.commands + UInt64.ofNat commands
  bytesRead : c'.server.counters.bytesRead = c.server.counters.bytesRead + UInt64.ofNat bytesRead
  written : ∃ sent, c'.replies = c.replies ++ sent ∧ c'.server.counters.bytesWritten =
    c.server.counters.bytesWritten + UInt64.ofNat (sent.flatMap Reply.bytes).length

namespace Counted

variable {c c' c'' : Connection} {commands commands' bytesRead bytesRead' : Nat}

theorem refl (c : Connection) : Counted c 0 0 c where
  accepted := rfl
  active := rfl
  commands := (UInt64.add_zero _).symm
  bytesRead := (UInt64.add_zero _).symm
  written := ⟨[], (List.append_nil _).symm, (UInt64.add_zero _).symm⟩

/-- Counts add up, up to the width of the counters. -/
theorem trans (h : Counted c commands bytesRead c') (h' : Counted c' commands' bytesRead' c'') :
    Counted c (commands + commands') (bytesRead + bytesRead') c'' where
  accepted := h'.accepted.trans h.accepted
  active := h'.active.trans h.active
  commands := by rw [h'.commands, h.commands, UInt64.ofNat_add, UInt64.add_assoc]
  bytesRead := by rw [h'.bytesRead, h.bytesRead, UInt64.ofNat_add, UInt64.add_assoc]
  written := by
    obtain ⟨sent, hreplies, hbytes⟩ := h.written
    obtain ⟨sent', hreplies', hbytes'⟩ := h'.written
    refine ⟨sent ++ sent', ?_, ?_⟩
    · rw [hreplies', hreplies, List.append_assoc]
    · rw [hbytes', hbytes, List.flatMap_append, List.length_append, UInt64.ofNat_add,
        UInt64.add_assoc]

end Counted

/-- Only the bytes of a read are counted with it. -/
theorem counted_receive (c : Connection) (bytes : Bytes) :
    Counted c 0 bytes.length (c.receive bytes) :=
  { Counted.refl c with bytesRead := rfl }

/-- A reply that cannot be written is not counted. -/
theorem counted_write (tolerance : Tolerance) (c : Connection) (reply : Reply) :
    Counted c 0 0 (write tolerance c reply).2 := by
  unfold write
  split
  · exact .refl c
  · refine { Counted.refl c with written := ⟨[reply], rfl, ?_⟩ }
    rw [List.flatMap_singleton]
    rfl

/-- A line is counted if it has been carried out, and then before its reply is written. -/
theorem counted_serveLine (tolerance : Tolerance) (c : Connection) (buffer : Bytes)
    (line : String) :
    Counted c (if (c.server.answer line).1.carriedOut then 1 else 0) 0
      (serveLine tolerance { c with buffer := buffer } line).2 := by
  have hcounters : (c.server.answer line).2.counters = c.server.counters :=
    (c.server.handles_answer line).1.counters
  rcases hanswer : c.server.answer line with ⟨outcome, after⟩
  rw [hanswer] at hcounters
  -- The server has answered; its counters are still the old ones.
  have hanswered : Counted c 0 0 { c with server := after, buffer := buffer } :=
    { accepted := congrArg (·.accepted) hcounters
      active := congrArg (·.active) hcounters
      commands := (congrArg (·.commands) hcounters).trans (UInt64.add_zero _).symm
      bytesRead := (congrArg (·.bytesRead) hcounters).trans (UInt64.add_zero _).symm
      written := ⟨[], (List.append_nil _).symm,
        (congrArg (·.bytesWritten) hcounters).trans (UInt64.add_zero _).symm⟩ }
  have hdone (c : Connection) : Counted c 1 0 (c.count (·.commandDone)) :=
    { Counted.refl c with commands := rfl }
  rw [serveLine_of_answer (c := { c with buffer := buffer }) hanswer]
  cases outcome with
  | failed e => exact hanswered
  | waiting => exact hanswered
  | silent => exact hanswered.trans (hdone _)
  | reply reply => exact (hanswered.trans (hdone _)).trans (counted_write tolerance _ reply)

/-- The bytes that a history has read. -/
def bytesRead (history : List Entry) : Nat := (history.filterMap Entry.read?).flatten.length

section Happens

variable {limit : Nat} {tolerance : Tolerance} {reads : List (Option Bytes)} {c : Connection}
  {history : List Entry} {result : Ending × Connection}

/-- **A history is what has been counted in it**, wherever it breaks off. -/
theorem counted_of_happens (h : Happens limit tolerance reads c history result) :
    Counted c (history.countP Entry.completed) (bytesRead history) result.2 := by
  -- By induction on the history: what one deed counts is added to what the rest of the history
  -- does.
  induction h with
  | tooLong _ | fails _ | finishes _ => exact .refl _
  | @stops _ c c' line ending hsplit hserved =>
    have hline := counted_serveLine tolerance c (c.buffer.drop line.consumed) line.text
    rw [hserved] at hline
    rw [List.countP_singleton]
    exact hline
  | @serves _ c c' line history result hsplit hserved hrest ih =>
    have hline := counted_serveLine tolerance c (c.buffer.drop line.consumed) line.text
    rw [hserved] at hline
    have hboth := hline.trans ih
    rw [Nat.zero_add, Nat.add_comm] at hboth
    rw [List.countP_cons]
    exact hboth
  | @reads bytes rest c history result hsplit hrest ih =>
    have hboth := (counted_receive c bytes).trans ih
    rw [Nat.zero_add] at hboth
    have hcommands : (⟨c, .read bytes⟩ :: history).countP Entry.completed =
        history.countP Entry.completed := List.countP_cons_of_neg Bool.false_ne_true
    have hread : bytesRead (⟨c, .read bytes⟩ :: history) = bytes.length + bytesRead history :=
      List.length_append
    rw [hcommands, hread]
    exact hboth

/-- From its beginning to its end a connection is counted as one that is open. -/
theorem active_of_happens (h : Happens limit tolerance reads c history result) :
    ∀ entry ∈ history, entry.before.server.counters.active = c.server.counters.active := by
  -- By induction on the history: neither a read nor a line changes how many connections are open.
  induction h with
  | tooLong _ | fails _ | finishes _ => exact fun _ hentry => nomatch hentry
  | @stops _ c c' line ending hsplit hserved =>
    intro entry hentry
    rw [List.mem_singleton.mp hentry]
  | @serves _ c c' line history result hsplit hserved hrest ih =>
    have hline := counted_serveLine tolerance c (c.buffer.drop line.consumed) line.text
    rw [hserved] at hline
    intro entry hentry
    rcases List.mem_cons.mp hentry with rfl | hentry
    · rfl
    · exact (ih entry hentry).trans hline.active
  | @reads bytes rest c history result hsplit hrest ih =>
    intro entry hentry
    rcases List.mem_cons.mp hentry with rfl | hentry
    · rfl
    · exact ih entry hentry

end Happens

/-! ## Conversations -/

/-- A client and the server that it comes to, but for the counters. -/
structure Visit where
  limit : Nat
  tolerance : Tolerance
  reads : List (Option Bytes)
  server : Server

/-- The conversation with a client who finds the counters as others have left them. -/
def Visit.result (v : Visit) (counters : Counters) : Ending × Connection :=
  converse v.limit v.tolerance v.reads { v.server with counters := counters }

/-- The page of one visit in a ledger: the counters before it, and what has happened. -/
structure Page where
  visit : Visit
  found : Counters
  history : List Entry

namespace Page

/-- The server as the client finds it. -/
def start (p : Page) : Server := { p.visit.server with counters := p.found }

def result (p : Page) : Ending × Connection := p.visit.result p.found

/-- The counters after the visit. -/
def left (p : Page) : Counters := p.result.2.server.counters

/-- The lines that were carried out without an error. -/
def commands (p : Page) : Nat := p.history.countP Entry.completed

/-- The bytes of the replies that were written and flushed. -/
def bytesWritten (p : Page) : Nat := (p.result.2.replies.flatMap Reply.bytes).length

/-- The page tells what the connection has done, in the order in which it did it. -/
def Tells (p : Page) : Prop :=
  Happens p.visit.limit p.visit.tolerance p.visit.reads (accept p.start) p.history
    (loop p.visit.limit p.visit.tolerance p.visit.reads (accept p.start))

/-- The counters show what is on the page. -/
structure Balances (p : Page) : Prop where
  tells : p.Tells
  /-- Nothing else is read than what the client sends. -/
  reads : (p.history.filterMap Entry.read?).map some <+: p.visit.reads
  accepted : p.left.accepted = p.found.accepted + 1
  /-- A connection is no longer counted once it has ended. -/
  active : p.left.active =
    if p.result.1 = .waiting then p.found.active + 1 else p.found.active
  commands : p.left.commands = p.found.commands + UInt64.ofNat p.commands
  bytesRead : p.left.bytesRead = p.found.bytesRead + UInt64.ofNat (bytesRead p.history)
  bytesWritten : p.left.bytesWritten = p.found.bytesWritten + UInt64.ofNat p.bytesWritten
  /-- Until then it is counted, at every read and at every line. -/
  during : ∀ entry ∈ p.history, entry.before.server.counters.active = p.found.active + 1
  /-- So a status request on the connection shows it. -/
  status : ∀ entry ∈ p.history, ∀ line id threshold reply, entry.deed = .serve line →
    Reading.ofLine line.text = .wellFormed (.status id threshold) →
    (entry.before.server.answer line.text).1 = .reply reply →
    ∃ version channels age,
      Outcome.reply reply = .status id version channels age (p.found.active + 1).toNat

end Page

/-- Only a connection that waits is not counted as ended. -/
theorem converse_of_loop {limit : Nat} {tolerance : Tolerance} {reads : List (Option Bytes)}
    {server : Server} {ending : Ending} {c : Connection}
    (h : loop limit tolerance reads (accept server) = (ending, c)) :
    converse limit tolerance reads server =
      (ending, if ending = .waiting then c else c.count (·.ended)) := by
  unfold converse
  rw [h]
  cases ending with
  | waiting => rfl
  | _ => rfl

/-- **One conversation.** However it ends, the counters show what has happened in it. -/
theorem Page.balances {p : Page} (h : p.Tells) : p.Balances := by
  have hduring : ∀ entry ∈ p.history,
      entry.before.server.counters.active = p.found.active + 1 := active_of_happens h
  have hcounted := counted_of_happens h
  rcases hloop : loop p.visit.limit p.visit.tolerance p.visit.reads (accept p.start) with
    ⟨ending, c⟩
  rw [hloop] at hcounted
  obtain ⟨haccepted, hactive, hcommands, hread, sent, hreplies, hwritten⟩ := hcounted
  have hresult : p.result = (ending, if ending = .waiting then c else c.count (·.ended)) :=
    converse_of_loop hloop
  -- The connection starts without replies, so those at its end are all that were sent.
  obtain rfl : c.replies = sent := hreplies
  have hleft : p.left =
      if ending = .waiting then c.server.counters else c.server.counters.ended := by
    unfold Page.left
    rw [hresult]
    split <;> rfl
  have hsent : p.bytesWritten = (c.replies.flatMap Reply.bytes).length := by
    unfold Page.bytesWritten
    rw [hresult]
    split <;> rfl
  constructor
  case tells => exact h
  case reads => exact h.reads_prefix
  case during => exact hduring
  case status =>
    intro entry hentry line id threshold reply _ hline hanswer
    obtain ⟨version, channels, age, hreply⟩ := exists_status_of_answer hline hanswer
    rw [hduring entry hentry] at hreply
    exact ⟨version, channels, age, hreply⟩
  case accepted =>
    rw [hleft]
    split <;> exact haccepted
  case active =>
    rw [hleft, hresult]
    split
    · exact hactive
    · show c.server.counters.active - 1 = p.found.active
      rw [hactive]
      exact UInt64.add_sub_cancel p.found.active 1
  case commands =>
    rw [hleft]
    split <;> exact hcommands
  case bytesRead =>
    rw [hleft]
    split <;> exact hread
  case bytesWritten =>
    rw [hleft, hsent]
    split <;> exact hwritten

/-! ## Conversations one after another -/

/-- The counters after some visits, if nobody else has touched them. -/
def countersAfter : Counters → List Visit → Counters
  | counters, [] => counters
  | counters, v :: rest => countersAfter (v.result counters).2.server.counters rest

/-- Each client finds the counters as the one before has left them. -/
def InOrder : Counters → List Page → Prop
  | _, [] => True
  | counters, p :: rest => p.found = counters ∧ InOrder p.left rest

/-- What all pages of a ledger come to. -/
structure Totals (counters : Counters) (ledger : List Page) (last : Counters) : Prop where
  accepted : last.accepted = counters.accepted + UInt64.ofNat ledger.length
  active : last.active =
    counters.active + UInt64.ofNat (ledger.countP fun p => p.result.1 = .waiting)
  commands : last.commands = counters.commands + UInt64.ofNat (ledger.map Page.commands).sum
  bytesRead : last.bytesRead =
    counters.bytesRead + UInt64.ofNat (ledger.map fun p => bytesRead p.history).sum
  bytesWritten : last.bytesWritten =
    counters.bytesWritten + UInt64.ofNat (ledger.map Page.bytesWritten).sum

theorem totals_nil (counters : Counters) : Totals counters [] counters :=
  ⟨(UInt64.add_zero _).symm, (UInt64.add_zero _).symm, (UInt64.add_zero _).symm,
    (UInt64.add_zero _).symm, (UInt64.add_zero _).symm⟩

/-- One more page in front. -/
theorem totals_cons {p : Page} {ledger : List Page} {last : Counters} (hpage : p.Balances)
    (h : Totals p.left ledger last) : Totals p.found (p :: ledger) last where
  accepted := by
    rw [h.accepted, hpage.accepted, List.length_cons, UInt64.add_assoc, Nat.add_comm,
      UInt64.ofNat_add]
    rfl
  active := by
    rw [h.active, hpage.active, List.countP_cons, Nat.add_comm, UInt64.ofNat_add,
      ← UInt64.add_assoc]
    by_cases hwaiting : p.result.1 = .waiting
    · rw [if_pos hwaiting, if_pos (decide_eq_true hwaiting)]
      rfl
    · have hnot : decide (p.result.1 = .waiting) ≠ true := fun h => hwaiting (of_decide_eq_true h)
      rw [if_neg hwaiting, if_neg hnot]
      exact congrArg (· + _) (UInt64.add_zero _).symm
  commands := by
    rw [h.commands, hpage.commands, List.map_cons, List.sum_cons, UInt64.ofNat_add,
      UInt64.add_assoc]
  bytesRead := by
    rw [h.bytesRead, hpage.bytesRead, List.map_cons, List.sum_cons, UInt64.ofNat_add,
      UInt64.add_assoc]
  bytesWritten := by
    rw [h.bytesWritten, hpage.bytesWritten, List.map_cons, List.sum_cons, UInt64.ofNat_add,
      UInt64.add_assoc]

/-- **The counters balance.** However many clients come one after another, and however each of their
connections ends: a connection is counted once for good and as open until it ends, and the commands
and bytes that are counted are those of its history and its replies. -/
theorem counters_balance (counters : Counters) (visits : List Visit) :
    ∃ ledger : List Page, ledger.map Page.visit = visits ∧ InOrder counters ledger ∧
      (∀ p ∈ ledger, p.Balances) ∧ Totals counters ledger (countersAfter counters visits) := by
  -- By induction on the visits: each finds the counters as the page before it leaves them.
  induction visits generalizing counters with
  | nil => exact ⟨[], rfl, trivial, fun _ hpage => absurd hpage List.not_mem_nil, totals_nil counters⟩
  | cons v rest ih =>
    obtain ⟨history, htells⟩ := happens_loop v.limit v.tolerance v.reads
      (accept { v.server with counters := counters })
    have hpage : Page.Balances ⟨v, counters, history⟩ := Page.balances htells
    obtain ⟨ledger, hvisits, horder, hbalances, htotals⟩ :=
      ih (v.result counters).2.server.counters
    refine ⟨⟨v, counters, history⟩ :: ledger, ?_, ⟨rfl, horder⟩, ?_, totals_cons hpage htotals⟩
    · rw [List.map_cons, hvisits]
    · exact List.forall_mem_cons.mpr ⟨hpage, hbalances⟩

end Connection

end Seismic
