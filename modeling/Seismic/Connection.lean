import Seismic.Reply.Zlib
import Seismic.Request.Line
import Seismic.Server.Answer

/-!
# Connection — one client from its first byte to its end

A connection reads bytes into a buffer, takes complete lines off it, answers them in order and
writes each reply before it looks at the next line. It ends when the client goes away, when a line
is too long, when the archive fails, or when a reply cannot be written.

A connection takes what a read brings, be it much or little; `converse` is given the reads. How much
one read brings is up to the transport. `run` is given what arrives from a client, chunks of bytes
and possibly a reset, and a transport that cuts them into reads; after the last comes the end of the
stream.
-/

namespace Seismic

inductive Arrival where
  | bytes (chunk : Bytes)
  | reset
deriving DecidableEq

inductive WriteFault where
  /-- The client no longer takes bytes. -/
  | broken
  /-- A write takes none of the bytes. -/
  | nothingTaken
deriving DecidableEq, Repr

/-- Why a connection ended. -/
inductive Ending where
  /-- The client went away between lines. -/
  | disconnected
  /-- The client went away within a line. -/
  | truncated
  /-- The client reset the connection. -/
  | reset
  /-- A reply could not be written. -/
  | unwritten (fault : WriteFault)
  /-- A line is too long. -/
  | lineTooLong (error : LineTooLong)
  | failed (error : ArchiveError)
  /-- A request waits for a slot; the connection has not ended. -/
  | waiting
deriving DecidableEq

namespace Ending

/-- The wording of an ending, except for failures of the transport, which the system words. -/
def message : Ending → String
  | disconnected => "Client disconnected"
  | truncated => "Unexpected end of stream"
  | lineTooLong e => "Parse error: " ++ e.message
  | failed e => "Command failed: archive error: " ++ e.message
  | reset | unwritten _ | waiting => ""

end Ending

/-- A connection: the shared server, the bytes not yet read as lines, and the replies that have
been written. -/
structure Connection where
  server : Server
  buffer : Bytes := []
  replies : List Reply := []

namespace Connection

/-- A client that takes some replies and then fails; `none` takes all. -/
abbrev Tolerance := Option (Nat × WriteFault)

/-- The fault that the next write meets, if any. -/
def writeFault? (tolerance : Tolerance) (written : Nat) : Option WriteFault :=
  match tolerance with
  | some (limit, fault) => if limit ≤ written then some fault else none
  | none => none

def count (c : Connection) (f : Counters → Counters) : Connection :=
  { c with server := { c.server with counters := f c.server.counters } }

variable [Compressor]

/-- The bytes that have been written, from the first reply to the last. -/
def output (c : Connection) : Bytes := c.replies.flatMap Reply.bytes

def write (tolerance : Tolerance) (c : Connection) (reply : Reply) : Option Ending × Connection :=
  match writeFault? tolerance c.replies.length with
  | some fault => (some (.unwritten fault), c)
  | none =>
    (none, { c with replies := c.replies ++ [reply] }.count (·.sent reply.bytes.length))

def serveLine (tolerance : Tolerance) (c : Connection) (line : String) :
    Option Ending × Connection :=
  let answered := c.server.answer line
  let c := { c with server := answered.2 }
  match answered.1 with
  | .failed e => (some (.failed e), c)
  | .waiting => (some .waiting, c)
  | .silent => (none, c.count (·.commandDone))
  | .reply reply => write tolerance (c.count (·.commandDone)) reply

/-- Writing a reply leaves the buffer alone. -/
theorem buffer_write (tolerance : Tolerance) (c : Connection) (reply : Reply) :
    (write tolerance c reply).2.buffer = c.buffer := by
  unfold write
  split <;> rfl

/-- Answering a line leaves the buffer alone. -/
theorem buffer_serveLine (tolerance : Tolerance) (c : Connection) (line : String) :
    (serveLine tolerance c line).2.buffer = c.buffer := by
  simp only [serveLine]
  split
  · rfl
  · rfl
  · rfl
  · exact buffer_write _ _ _

/-- Answers the complete lines in the buffer. -/
def drain (limit : Nat) (tolerance : Tolerance) (c : Connection) : Option Ending × Connection :=
  match _h : Line.split limit c.buffer with
  | .error e => (some (.lineTooLong e), c)
  | .ok none => (none, c)
  | .ok (some line) =>
    let served := serveLine tolerance { c with buffer := c.buffer.drop line.consumed } line.text
    match served.1 with
    | some ending => (some ending, served.2)
    | none => drain limit tolerance served.2
termination_by c.buffer.length
decreasing_by
  have := Line.consumed_pos_and_le _h
  rw [buffer_serveLine]
  simp only [List.length_drop]
  omega

/-- Takes in the bytes of one read. -/
def receive (c : Connection) (bytes : Bytes) : Connection :=
  { c with buffer := c.buffer ++ bytes }.count (·.received bytes.length)

/-- How the connection ends when the stream does: a line that has begun is lost. -/
def endOfStream (c : Connection) : Ending :=
  if c.buffer.isEmpty then .disconnected else .truncated

/-- Answers the lines in the buffer, reads on, and so on until the connection ends. -/
def loop (limit : Nat) (tolerance : Tolerance) :
    List (Option Bytes) → Connection → Ending × Connection
  | arrivals, c =>
    match drain limit tolerance c, arrivals with
    | (some ending, c), _ => (ending, c)
    | (none, c), [] => (c.endOfStream, c)
    | (none, c), none :: _ => (.reset, c)
    | (none, c), some bytes :: rest => loop limit tolerance rest (c.receive bytes)

def accept (server : Server) : Connection := count { server := server } (·.opened)

/-- Converses with a client whose reads bring the given bytes. A connection that waits for a slot
has not ended and stays counted. -/
def converse (limit : Nat) (tolerance : Tolerance) (reads : List (Option Bytes)) (server : Server) :
    Ending × Connection :=
  match loop limit tolerance reads (accept server) with
  | (.waiting, c) => (.waiting, c)
  | (ending, c) => (ending, c.count (·.ended))

end Connection

/-! ## Transports -/

/-- What hands over the bytes of a client: at most so many in one read, and at least one. -/
structure Transport where
  limit : Nat
  limit_pos : 0 < limit

namespace Transport

/-- A stream in memory. -/
def inMemory : Transport := ⟨512, by decide⟩

/-- A chunk as it is read. -/
def cut (transport : Transport) (chunk : Bytes) : List Bytes :=
  if chunk.isEmpty then []
  else chunk.take transport.limit :: transport.cut (chunk.drop transport.limit)
termination_by chunk.length
decreasing_by
  have := transport.limit_pos
  cases chunk with
  | nil => contradiction
  | cons _ _ =>
    simp only [List.length_drop, List.length_cons]
    omega

/-- All reads of a client; `none` is a read that fails. -/
def reads (transport : Transport) (arrivals : List Arrival) : List (Option Bytes) :=
  arrivals.flatMap fun
    | .bytes chunk => (transport.cut chunk).map some
    | .reset => [none]

end Transport

/-- Converses with a client over a transport, until the connection ends. -/
def Connection.run [Compressor] (limit : Nat) (tolerance : Tolerance) (arrivals : List Arrival)
    (server : Server) (transport : Transport := .inMemory) : Ending × Connection :=
  converse limit tolerance (transport.reads arrivals) server

end Seismic
