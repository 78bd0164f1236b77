import Seismic.Proofs.Transcript

/-!
# History — what a connection does, one thing after another

A connection answers lines in one loop and reads in another around it. Its history is flat: the reads
and the lines in the order in which they happen, each with the connection as it was just before.

* **`Happens`** says which histories a connection can have, and how it ends after each;
* **`happens_loop`**: every connection has a history, whatever its client does;
* **`Happens.eq_of_happens`**: it has no other;
* **`Happens.reads_prefix`**: the reads in it are the client's own, from the first on.

What holds of a connection from its beginning to its end is then shown by induction on its history.
-/

namespace Seismic.Connection

/-- One thing that a connection does. -/
inductive Deed where
  /-- A read brings bytes. -/
  | read (bytes : Bytes)
  /-- A line is taken off the buffer and answered. -/
  | serve (line : Line)

/-- A deed, and the connection just before it. -/
structure Entry where
  before : Connection
  deed : Deed

/-- The bytes that a read brings. -/
def Entry.read? : Entry → Option Bytes
  | ⟨_, .read bytes⟩ => some bytes
  | ⟨_, .serve _⟩ => none

/-- The line that was at the front of the buffer: none was left if the deed is a read. -/
def Entry.found : Entry → Option Line
  | ⟨_, .read _⟩ => none
  | ⟨_, .serve line⟩ => some line

variable [Compressor]

/-- A connection with `reads` to come does what is in its history and then ends. Only a connection
without a complete line in its buffer reads. -/
inductive Happens (limit : Nat) (tolerance : Tolerance) :
    List (Option Bytes) → Connection → List Entry → Ending × Connection → Prop
  | tooLong {reads : List (Option Bytes)} {c : Connection} {e : LineTooLong}
      (hsplit : Line.split limit c.buffer = .error e) :
      Happens limit tolerance reads c [] (.lineTooLong e, c)
  | stops {reads : List (Option Bytes)} {c c' : Connection} {line : Line} {ending : Ending}
      (hsplit : Line.split limit c.buffer = .ok (some line))
      (hserved : serveLine tolerance { c with buffer := c.buffer.drop line.consumed } line.text =
        (some ending, c')) :
      Happens limit tolerance reads c [⟨c, .serve line⟩] (ending, c')
  | serves {reads : List (Option Bytes)} {c c' : Connection} {line : Line}
      {history : List Entry} {result : Ending × Connection}
      (hsplit : Line.split limit c.buffer = .ok (some line))
      (hserved : serveLine tolerance { c with buffer := c.buffer.drop line.consumed } line.text =
        (none, c'))
      (hrest : Happens limit tolerance reads c' history result) :
      Happens limit tolerance reads c (⟨c, .serve line⟩ :: history) result
  | reads {bytes : Bytes} {rest : List (Option Bytes)} {c : Connection} {history : List Entry}
      {result : Ending × Connection} (hsplit : Line.split limit c.buffer = .ok none)
      (hrest : Happens limit tolerance rest (c.receive bytes) history result) :
      Happens limit tolerance (some bytes :: rest) c (⟨c, .read bytes⟩ :: history) result
  | fails {rest : List (Option Bytes)} {c : Connection}
      (hsplit : Line.split limit c.buffer = .ok none) :
      Happens limit tolerance (none :: rest) c [] (.reset, c)
  | finishes {c : Connection} (hsplit : Line.split limit c.buffer = .ok none) :
      Happens limit tolerance [] c [] (c.endOfStream, c)

variable {limit : Nat} {tolerance : Tolerance} {reads : List (Option Bytes)} {c : Connection}

/-- A connection has a history if it has one from when no complete line is left in its buffer. -/
theorem exists_happens_drain {proceed : Connection → Ending × Connection}
    (hproceed : ∀ c', Line.split limit c'.buffer = .ok none →
      ∃ history, Happens limit tolerance reads c' history (proceed c')) :
    ∃ history, Happens limit tolerance reads c history
      (match drain limit tolerance c with
      | (some ending, c') => (ending, c')
      | (none, c') => proceed c') := by
  -- Each line that is taken off shortens the buffer.
  induction h : c.buffer.length using Nat.strongRecOn generalizing c with
  | _ n ih =>
    cases hsplit : Line.split limit c.buffer with
    | error e =>
      rw [drain_of_error hsplit]
      exact ⟨[], .tooLong hsplit⟩
    | ok found =>
      cases found with
      | none =>
        rw [drain_of_none hsplit]
        exact hproceed c hsplit
      | some line =>
        rw [drain_of_line hsplit]
        have hbuffer := buffer_serveLine tolerance
          { c with buffer := c.buffer.drop line.consumed } line.text
        rcases hserved : serveLine tolerance { c with buffer := c.buffer.drop line.consumed }
          line.text with ⟨_ | ending, c'⟩
        · rw [hserved] at hbuffer
          have hconsumed := Line.consumed_pos_and_le hsplit
          have hshorter : c'.buffer.length < n := by
            rw [show c'.buffer = c.buffer.drop line.consumed from hbuffer, List.length_drop]
            omega
          obtain ⟨history, hrest⟩ := ih _ hshorter rfl
          exact ⟨_, .serves hsplit hserved hrest⟩
        · exact ⟨_, .stops hsplit hserved⟩

/-- **Every connection has a history.** -/
theorem happens_loop (limit : Nat) (tolerance : Tolerance) (reads : List (Option Bytes))
    (c : Connection) :
    ∃ history, Happens limit tolerance reads c history (loop limit tolerance reads c) := by
  induction reads generalizing c with
  | nil =>
    rw [loop_eq_proceed]
    exact exists_happens_drain fun c' hsplit => ⟨[], .finishes hsplit⟩
  | cons read rest ih =>
    rw [loop_eq_proceed]
    refine exists_happens_drain fun c' hsplit => ?_
    cases read with
    | none => exact ⟨[], .fails hsplit⟩
    | some bytes =>
      obtain ⟨history, hrest⟩ := ih (c'.receive bytes)
      exact ⟨_, .reads hsplit hrest⟩

/-- **A connection has one history.** -/
theorem Happens.eq_of_happens {history history' : List Entry}
    {result result' : Ending × Connection} (h : Happens limit tolerance reads c history result)
    (h' : Happens limit tolerance reads c history' result') :
    history = history' ∧ result = result' := by
  -- What taking a line off the buffer finds, and how it is answered, says what happens next.
  induction h generalizing history' result' with
  | tooLong hsplit | fails hsplit | finishes hsplit => cases h' <;> simp_all
  | stops hsplit hserved => cases h' <;> simp_all
  | serves hsplit hserved hrest ih =>
    cases h' with
    | serves hsplit' hserved' hrest' =>
      cases hsplit.symm.trans hsplit'
      cases hserved.symm.trans hserved'
      obtain ⟨rfl, rfl⟩ := ih hrest'
      exact ⟨rfl, rfl⟩
    | _ => simp_all
  | reads hsplit hrest ih =>
    cases h' with
    | reads hsplit' hrest' =>
      obtain ⟨rfl, rfl⟩ := ih hrest'
      exact ⟨rfl, rfl⟩
    | _ => simp_all

/-- Taking a line off the buffer found what the connection then went by. -/
theorem Happens.split_of_mem {history : List Entry} {result : Ending × Connection}
    (h : Happens limit tolerance reads c history result) :
    ∀ entry ∈ history, Line.split limit entry.before.buffer = .ok entry.found := by
  induction h with
  | tooLong _ | fails _ | finishes _ => exact fun _ hmem => nomatch hmem
  | stops hsplit _ => exact List.forall_mem_singleton.mpr hsplit
  | serves hsplit _ _ ih => exact List.forall_mem_cons.mpr ⟨hsplit, ih⟩
  | reads hsplit _ ih => exact List.forall_mem_cons.mpr ⟨hsplit, ih⟩

/-- The bytes that are read are those that the client's first reads bring. -/
theorem Happens.reads_prefix {history : List Entry} {result : Ending × Connection}
    (h : Happens limit tolerance reads c history result) :
    (history.filterMap Entry.read?).map some <+: reads := by
  induction h with
  | tooLong _ | stops _ _ | fails _ | finishes _ => exact List.nil_prefix
  | serves _ _ _ ih => exact ih
  | reads _ _ ih => exact List.cons_prefix_cons.mpr ⟨rfl, ih⟩

end Seismic.Connection
