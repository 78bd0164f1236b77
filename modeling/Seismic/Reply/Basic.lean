import Seismic.Number.Numeral
import Seismic.Product
import Seismic.Text.Utf8

/-!
# Reply — what the server sends back

A reply is framed in one of three ways. A *line* ends with its newline. A *block* starts with a
header and the number of lines that follow. A *binary* reply starts with a header and the number of
bytes that follow. So a client that knows which framing to expect can tell where a reply ends.

A request that is understood but cannot be served is answered by a line with a failure token.

How payloads are compressed is left open: whatever needs the bytes of a reply takes a `Compressor`.
-/

namespace Seismic

/-! ## Failures -/

/-- Why a request for a window of a channel has no product. -/
inductive Failure where
  /-- There is no such channel. -/
  | noChannel
  /-- The window does not end after it starts. -/
  | badRange
  /-- The window ends before the earliest time that can be served. -/
  | tooEarly (earliest : Time)
  /-- The window starts after the latest time that can be served. -/
  | tooLate (latest : Time)
  /-- The window holds no data. -/
  | gap
deriving DecidableEq

/-- The name of the sample type, which all channels share. -/
def sampleType : String := "s4"

namespace Failure

/-- The two letters of a failure. -/
def code : Failure → String
  | noChannel => "FN"
  | badRange => "FB"
  | tooEarly _ => "FL"
  | tooLate _ => "FR"
  | gap => "FG"

/-- The token of a failure: its letters, the sample type where a channel is known and the window is
in order, and the time that can be served. -/
def text (f : Failure) : String :=
  match f with
  | noChannel | badRange => f.code
  | tooEarly t | tooLate t => f.code ++ " " ++ sampleType ++ " " ++ t.wireText
  | gap => f.code ++ " " ++ sampleType

end Failure

/-! ## Replies -/

/-- What compresses payloads. Nothing is assumed of it; a client that unpacks payloads relies on an
inflater that undoes `deflate`. -/
class Compressor where
  deflate : Bytes → Bytes

/-- The bytes of a product, and whether they go out compressed. -/
structure Payload where
  raw : Bytes
  compressed : Bool := false
deriving DecidableEq

namespace Payload

def bytes [Compressor] (p : Payload) : Bytes :=
  if p.compressed then Compressor.deflate p.raw else p.raw

end Payload

/-- A reply, by its framing. -/
inductive Reply where
  | line (text : String)
  | block (header : String) (lines : List String)
  | binary (header : String) (payload : Payload)
deriving DecidableEq

namespace Reply

/-- The reply that gives a failure instead of a product. -/
def failure (header : String) (f : Failure) : Reply := .line (header ++ " " ++ f.text)

/-- The reply to a request whose fields do not fit its keyword, with its id if it has one. -/
def malformed (id : Option String) : Reply :=
  match id with
  | some id => .line (id ++ " ERROR: malformed command")
  | none => .line "ERROR: malformed command"

/-- The reply to a keyword that is not known. -/
def unsupported (keyword : String) : Reply := .line ("ERROR: unsupported command " ++ keyword)

/-- The newline byte, which ends every line. -/
def newline : UInt8 := 10

/-- A line of text with its newline. -/
def lineBytes (text : String) : Bytes := Utf8.encode text ++ [newline]

/-- A header line: the header and the number of lines or bytes that follow. -/
def headerBytes (header : String) (count : Nat) : Bytes :=
  lineBytes (header ++ " " ++ Numeral.ofNat count)

def bytes [Compressor] : Reply → Bytes
  | line text => lineBytes text
  | block header lines => headerBytes header lines.length ++ lines.flatMap lineBytes
  | binary header payload => headerBytes header payload.bytes.length ++ payload.bytes

def summary [Compressor] : Reply → String
  | line text => text
  | block header lines => header ++ " (" ++ Numeral.ofNat lines.length ++ " lines)"
  | binary header payload =>
    header ++ " (binary data, " ++ Numeral.ofNat payload.bytes.length ++ " bytes)"

end Reply

end Seismic
