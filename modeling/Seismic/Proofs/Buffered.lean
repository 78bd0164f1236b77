import Seismic.Proofs.History

/-!
# Buffered — the limit on lines bounds what a connection holds and answers

The limit is looked at while a line is taken off the buffer, whether its newline has come or not. What
follows from that holds at every read and at every line, however the bytes come in.

* **`turns_eq_drain`**: the loop over the lines of the buffer comes to its end, after at most as many
  lines as there are newlines;
* **`free_of_mem_readers`**: a connection that is about to read has no newline in its buffer and no
  more bytes than the limit;
* **`served_eq_taken`**: the lines that a connection answers are those that its transcript takes;
* **`lines_within_limit`**: these are all lines within the limit that nothing before them has stopped.
-/

namespace Seismic

/-- The ending comes of a read: it fails, or it finds the end of the stream. -/
def Ending.ofRead : Ending → Bool
  | disconnected | truncated | reset => true
  | unwritten _ | lineTooLong _ | failed _ | waiting => false

namespace Connection

/-! ## The lines of a history -/

/-- The bytes of the line that is answered. -/
def Entry.line? : Entry → Option Bytes
  | ⟨c, .serve _⟩ => some (Line.body c.buffer)
  | ⟨_, .read _⟩ => none

/-- The lines that are answered in a history. -/
def served (history : List Entry) : List Bytes := history.filterMap Entry.line?

theorem served_cons_serve {c : Connection} {body rest : Bytes}
    (hbuffer : c.buffer = body ++ 10 :: rest) (hbody : 10 ∉ body) (line : Line) (history : List Entry) :
    served (⟨c, .serve line⟩ :: history) = body :: served history := by
  show Line.body c.buffer :: served history = body :: served history
  rw [hbuffer, Line.body_append_eq hbody]

/-! ## The loop over the lines of the buffer -/

variable [Compressor]

/-- One turn of the loop: it comes to its end, or a line has been answered and it goes on. -/
def turn (limit : Nat) (tolerance : Tolerance) (c : Connection) :
    Except (Option Ending × Connection) Connection :=
  match Line.split limit c.buffer with
  | .error e => .error (some (.lineTooLong e), c)
  | .ok none => .error (none, c)
  | .ok (some line) =>
    match serveLine tolerance { c with buffer := c.buffer.drop line.consumed } line.text with
    | (some ending, c') => .error (some ending, c')
    | (none, c') => .ok c'

/-- So many turns, unless the loop comes to its end before. -/
def turns (limit : Nat) (tolerance : Tolerance) :
    Nat → Connection → Except (Option Ending × Connection) Connection
  | 0, c => .ok c
  | n + 1, c => (turn limit tolerance c).bind (turns limit tolerance n)

variable {limit : Nat} {tolerance : Tolerance} {reads : List (Option Bytes)} {c : Connection}
  {s : Server} {history : List Entry} {result : Ending × Connection}

/-- **One turn.** The loop is at its end, or it has taken a line off the buffer and goes on. -/
theorem turn_cases (limit : Nat) (tolerance : Tolerance) (c : Connection) :
    turn limit tolerance c = .error (drain limit tolerance c) ∨
      ∃ c' line, turn limit tolerance c = .ok c' ∧
        drain limit tolerance c = drain limit tolerance c' ∧
        Line.split limit c.buffer = .ok (some line) ∧ c'.buffer = c.buffer.drop line.consumed := by
  unfold turn
  cases hsplit : Line.split limit c.buffer with
  | error e => exact .inl (congrArg Except.error (drain_of_error hsplit).symm)
  | ok found =>
    cases found with
    | none => exact .inl (congrArg Except.error (drain_of_none hsplit).symm)
    | some line =>
      rw [drain_of_line hsplit]
      have hrest := buffer_serveLine tolerance
        { c with buffer := c.buffer.drop line.consumed } line.text
      rcases hserved : serveLine tolerance { c with buffer := c.buffer.drop line.consumed }
        line.text with ⟨_ | ending, c'⟩
      · rw [hserved] at hrest
        refine .inr ⟨c', line, ?_, ?_, rfl, hrest⟩
        · simp only [hserved]
        · rfl
      · refine .inl ?_
        simp only [hserved]

/-- **The loop comes to its end** once it has had more turns than there are newlines in the buffer. -/
theorem turns_eq_drain {n : Nat} (h : c.buffer.count 10 < n) :
    turns limit tolerance n c = .error (drain limit tolerance c) := by
  induction n generalizing c with
  | zero => exact absurd h (Nat.not_lt_zero _)
  | succ n ih =>
    unfold turns
    rcases turn_cases limit tolerance c with hend | ⟨c', line, hturn, hdrain, hsplit, hrest⟩
    · rw [hend]
      rfl
    · -- The newline of the line that was taken is off the buffer.
      obtain ⟨body, rest, _, _, hbuffer, rfl⟩ := Line.exists_of_split hsplit
      rw [hbuffer, Line.drop_length_add_one] at hrest
      rw [hbuffer, List.count_append, List.count_cons_self] at h
      rw [hturn, hdrain]
      refine ih ?_
      rw [hrest]
      omega

/-- The loop goes on only after it has taken a line off the buffer. -/
theorem exists_line_of_turn {c' : Connection} (h : turn limit tolerance c = .ok c') :
    ∃ line, Line.split limit c.buffer = .ok (some line) ∧
      c'.buffer = c.buffer.drop line.consumed := by
  rcases turn_cases limit tolerance c with hend | ⟨_, line, hturn, _, hsplit, hrest⟩
  · rw [hend] at h
    cases h
  · rw [hturn] at h
    cases h
    exact ⟨line, hsplit, hrest⟩

/-! ## Histories -/

/-- A connection each time that it is about to read: before every read that brings bytes, and at the
end if that comes of a read. -/
def readers (history : List Entry) (result : Ending × Connection) : List Connection :=
  (history.filter (·.read?.isSome)).map (·.before) ++
    if result.1.ofRead then [result.2] else []

/-- Answering a line does not end a connection as a read does. -/
theorem ofRead_of_serveLine {line : String} {ending : Ending} {c' : Connection}
    (h : serveLine tolerance c line = (some ending, c')) : ending.ofRead = false := by
  rcases hanswer : c.server.answer line with ⟨outcome, after⟩
  rw [serveLine_of_answer hanswer] at h
  cases outcome with
  | failed e => cases h; rfl
  | waiting => cases h; rfl
  | silent => cases h
  | reply reply =>
    simp only [write] at h
    split at h
    · cases h
      rfl
    · cases h

/-- A connection that ends at a read has no line left in its buffer. -/
theorem split_of_ofRead (h : Happens limit tolerance reads c history result)
    (hread : result.1.ofRead = true) : Line.split limit result.2.buffer = .ok none := by
  induction h with
  | tooLong _ => cases hread
  | stops _ hserved =>
    rw [ofRead_of_serveLine hserved] at hread
    cases hread
  | serves _ _ _ ih => exact ih hread
  | reads _ _ ih => exact ih hread
  | fails hsplit => exact hsplit
  | finishes hsplit => exact hsplit

/-- **Whenever a connection is about to read**, its buffer has no newline and is within the limit. -/
theorem free_of_mem_readers (h : Happens limit tolerance reads c history result) :
    ∀ c' ∈ readers history result, 10 ∉ c'.buffer ∧ c'.buffer.length ≤ limit := by
  intro c' hmem
  rcases List.mem_append.mp hmem with hbefore | hend
  · obtain ⟨⟨_, deed⟩, hentry, rfl⟩ := List.mem_map.mp hbefore
    obtain ⟨hentry, hread⟩ := List.mem_filter.mp hentry
    have hsplit := h.split_of_mem _ hentry
    cases deed with
    | read bytes => exact Line.free_of_split hsplit
    | serve line => cases hread
  · split at hend
    · next hread =>
      rw [List.mem_singleton.mp hend]
      exact Line.free_of_split (split_of_ofRead h hread)
    · cases hend

/-- A line that is answered stands at the front of the buffer and is within the limit. -/
theorem exists_line_of_mem (h : Happens limit tolerance reads c history result) :
    ∀ entry ∈ history, ∀ line, entry.deed = .serve line →
      ∃ body rest, 10 ∉ body ∧ body.length ≤ limit ∧ entry.before.buffer = body ++ 10 :: rest ∧
        line = ⟨Line.textOf body, body.length + 1⟩ := by
  rintro ⟨_, _⟩ hentry line rfl
  exact Line.exists_of_split (h.split_of_mem _ hentry)

/-- **The lines that are answered** are those that the transcript takes. -/
theorem served_eq_taken (h : Happens limit tolerance reads c history result)
    (hs : c.server.Alike (· = ·) s) :
    served history = (remaining limit tolerance reads c s).taken := by
  induction h generalizing s with
  | @tooLong reads c e hsplit =>
    unfold remaining
    rcases Line.too_long_of_append (delivered reads) (Line.too_long_of_split hsplit) with
      ⟨first, rest, hlines, hlong⟩ | ⟨hlines, _⟩
    · rw [hlines, Transcript.ofLines_too_long hlong]
      rfl
    · rw [hlines]
      rfl
  | @stops reads c c' line ending hsplit hserved =>
    obtain ⟨body, rest, hbody, hlimit, hbuffer, rfl⟩ := Line.exists_of_split hsplit
    rw [hbuffer, Line.drop_length_add_one] at hserved
    rcases serveLine_cases tolerance reads hs hbuffer hbody hlimit with
      ⟨_, _, _, _, _, hstop, _⟩ | ⟨_, _, _, hgoes, _⟩
    · -- The line is the last one in the history and in the transcript.
      rw [served_cons_serve hbuffer hbody, hstop]
      rfl
    · rw [hserved] at hgoes
      cases hgoes
  | @serves reads c c' line history result hsplit hserved hrest ih =>
    obtain ⟨body, rest, hbody, hlimit, hbuffer, rfl⟩ := Line.exists_of_split hsplit
    rw [hbuffer, Line.drop_length_add_one] at hserved
    rcases serveLine_cases tolerance reads hs hbuffer hbody hlimit with
      ⟨_, _, _, _, hstops, _⟩ | ⟨_, s', _, hgoes, hnext, _, _, _, hs'⟩
    · rw [hserved] at hstops
      cases hstops
    · -- Both go on with the lines after it.
      rw [hserved] at hgoes
      cases hgoes
      rw [served_cons_serve hbuffer hbody, hnext, ih hs']
      rfl
  | @reads bytes rest c history result hsplit hrest ih =>
    have hreceived : (c.receive bytes).server.Alike (· = ·) s :=
      alike_count (c := { c with buffer := c.buffer ++ bytes }) hs fun _ => rfl
    rw [← remaining_receive]
    exact ih hreceived
  | fails hsplit =>
    rw [remaining_at_end limit tolerance s (Line.free_of_split hsplit).1 rfl]
    rfl
  | finishes hsplit =>
    rw [remaining_at_end limit tolerance s (Line.free_of_split hsplit).1 rfl]
    rfl

/-! ## Conversations -/

/-- What the limit on lines means for what a connection does. -/
structure Within (limit : Nat) (tolerance : Tolerance) (reads : List (Option Bytes))
    (server : Server) (history : List Entry) : Prop where
  happens : Happens limit tolerance reads (accept server) history
    (loop limit tolerance reads (accept server))
  /-- Whenever it reads, it holds less than a line and no more than the limit. -/
  held : ∀ c ∈ readers history (loop limit tolerance reads (accept server)),
    10 ∉ c.buffer ∧ c.buffer.length ≤ limit
  /-- A line that it answers has come with its newline and is within the limit. -/
  bounded : ∀ entry ∈ history, ∀ line, entry.deed = .serve line →
    ∃ body rest, 10 ∉ body ∧ body.length ≤ limit ∧ entry.before.buffer = body ++ 10 :: rest ∧
      line = ⟨Line.textOf body, body.length + 1⟩
  /-- A line of the stream is answered exactly if it is within the limit and no fault comes before
  it: none of the lines before it is too long, fails, has to wait, or has a reply that cannot be
  written. -/
  reached : ∀ earlier body later, Stream.lines (delivered reads) = earlier ++ body :: later →
    (earlier ++ [body] <+: served history ↔ body.length ≤ limit ∧
      (Transcript.ofLines limit tolerance earlier 0 (accept server).server).stop = none)

/-- **The limit on lines bounds what a connection holds and what it answers**, however its bytes come
in, and the loop over the lines of its buffer always comes to its end: it goes on only after it has
taken a line, which is at least one byte of the buffer and at most all of them. -/
theorem lines_within_limit (limit : Nat) (tolerance : Tolerance) (reads : List (Option Bytes))
    (server : Server) :
    (∃ history, Within limit tolerance reads server history ∧
      ∀ history' result, Happens limit tolerance reads (accept server) history' result →
        history' = history) ∧
    ∀ c : Connection,
      (∀ line, Line.split limit c.buffer = .ok (some line) →
        0 < line.consumed ∧ line.consumed ≤ c.buffer.length) ∧
      (∀ c', turn limit tolerance c = .ok c' →
        ∃ line, Line.split limit c.buffer = .ok (some line) ∧
          c'.buffer = c.buffer.drop line.consumed) ∧
      turns limit tolerance (c.buffer.count 10 + 1) c = .error (drain limit tolerance c) := by
  refine ⟨?_, fun c => ⟨fun line => Line.consumed_pos_and_le, fun c' => exists_line_of_turn,
    turns_eq_drain (Nat.lt_succ_self _)⟩⟩
  obtain ⟨history, hhappens⟩ := happens_loop limit tolerance reads (accept server)
  refine ⟨history, ⟨hhappens, free_of_mem_readers hhappens, exists_line_of_mem hhappens, ?_⟩,
    fun _ _ h => (h.eq_of_happens hhappens).1⟩
  intro earlier body later hlines
  have hserved := served_eq_taken hhappens ⟨rfl, rfl, rfl, rfl, rfl, rfl⟩
  rw [hserved, remaining]
  show _ <+: (Transcript.ofLines limit tolerance (Stream.lines (delivered reads)) 0 _).taken ↔ _
  rw [hlines, Transcript.isPrefix_taken_iff]

end Connection

end Seismic
