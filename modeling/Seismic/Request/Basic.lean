import Seismic.Product
import Seismic.Request.Command

/-!
# Request — what a client asks for

There are eleven verbs. Each asks for a fixed shape: a number of tokens, and numbers, flags or words
at certain places. A command of the right shape becomes a request. What happens to one of the wrong
shape depends on the verb: the older ones drop it without a word, the newer ones say that it is
malformed.
-/

namespace Seismic

/-! ## Verbs -/

inductive Verb where
  | version
  | status
  | menu
  | getChannels
  | getMetadata
  | getScn
  | getScnl
  | getScnlRaw
  | getWaveRaw
  | getHelicorder
  | getRsam
deriving DecidableEq, Repr

/-- What happens to a command that does not fit its verb. -/
inductive Mismatch where
  /-- It is dropped and nothing is sent. -/
  | ignored
  /-- The reply says that it is malformed. -/
  | rejected
deriving DecidableEq, Repr

namespace Verb

def all : List Verb :=
  [version, status, menu, getChannels, getMetadata, getScn, getScnl, getScnlRaw, getWaveRaw,
    getHelicorder, getRsam]

def keyword : Verb → String
  | version => "VERSION"
  | status => "STATUS"
  | menu => "MENU"
  | getChannels => "GETCHANNELS"
  | getMetadata => "GETMETADATA"
  | getScn => "GETSCN"
  | getScnl => "GETSCNL"
  | getScnlRaw => "GETSCNLRAW"
  | getWaveRaw => "GETWAVERAW"
  | getHelicorder => "GETSCNLHELIRAW"
  | getRsam => "GETSCNLRSAMRAW"

/-- The verb with a keyword. Upper and lower case differ. -/
def ofKeyword? (keyword : String) : Option Verb :=
  all.find? fun v => v.keyword = keyword

/-- What happens to a command that does not fit the verb. -/
def onMismatch : Verb → Mismatch
  | menu | getScn | getScnl | getScnlRaw => .ignored
  | _ => .rejected

end Verb

/-! ## Requests -/

/-- What every request for data names: the id to repeat, a channel and a window. -/
structure DataRequest where
  id : String
  address : Address
  window : Span Time
deriving DecidableEq

/-- How the reply to a request for data starts: with the channel's id and address, or with the
request's id alone. -/
inductive Framing where
  | channel (withLocation : Bool)
  | idOnly
deriving DecidableEq, Repr

namespace Framing

/-- Whether requests with this framing carry a location code. -/
def withLocation : Framing → Bool
  | channel withLocation => withLocation
  | idOnly => true

end Framing

inductive RecordKind where
  | instrument
  | channel
deriving DecidableEq, Repr

/-- A request of the right shape. -/
inductive Request where
  | version
  | status (id : String) (threshold : Time)
  | menu (id : String) (withLocation : Bool)
  | channels (id : String) (verbose : Bool)
  | records (id : String) (kind : RecordKind)
  | samples (data : DataRequest) (withLocation : Bool) (fill : String)
  | wave (data : DataRequest) (framing : Framing) (compressed : Bool)
  | helicorder (data : DataRequest) (compressed : Bool)
  | rsam (data : DataRequest) (period : Option Nat) (compressed : Bool)
deriving DecidableEq

namespace Request

/-- The id, channel and window of a command. The window follows the address. -/
def data? (c : Command) (withLocation : Bool) : Option DataRequest := do
  let id ← c.id?
  let address ← c.address? withLocation
  let window ← c.window? (if withLocation then 6 else 5)
  return ⟨id, address, window⟩

/-- A server status request. The threshold on data age is optional, and one that is not a number
counts as none. -/
def status? (c : Command) : Option Request := do
  let id ← c.id?
  if c.length = 2 || c.length = 3 then return .status id ((c.number? 2).getD 0) else none

/-- A request of two tokens, or of three if the third is `word`. It is made from its id and from
whether the word is there. -/
def withOption? (c : Command) (word : String) (request : String → Bool → Request) :
    Option Request := do
  let id ← c.id?
  if c.length = 2 then return request id false
  else if c.length = 3 && c.token? 2 = some word then return request id true
  else none

def records? (c : Command) : Option Request := do
  let id ← c.id?
  if c.length ≠ 3 then none
  else match c.token? 2 with
    | some "INSTRUMENT" => return .records id .instrument
    | some "CHANNEL" => return .records id .channel
    | _ => none

/-- A request for samples in text. The last token is the text for missing samples. -/
def samples? (c : Command) (withLocation : Bool) : Option Request := do
  let (count, times) := if withLocation then (9, 6) else (8, 5)
  if c.hasTimes count times then
    let data ← data? c withLocation
    let fill ← c.token? (count - 1)
    return .samples data withLocation fill
  else none

def wave? (c : Command) (framing : Framing) : Option Request := do
  if c.hasTimes 9 6 then return .wave (← data? c true) framing (← c.flag? 8) else none

def helicorder? (c : Command) : Option Request := do
  if c.hasTimes 9 6 then return .helicorder (← data? c true) (← c.flag? 8) else none

def rsam? (c : Command) : Option Request := do
  if c.hasTimes 10 6 then
    let period ← c.integer? 8
    return .rsam (← data? c true) (Rsam.period? period) (← c.flag? 9)
  else none

/-- The request that a command with this verb makes, if it has the verb's shape. -/
def ofCommand? (c : Command) : Verb → Option Request
  | .version => if c.length ≤ 2 then some .version else none
  | .status => status? c
  | .menu => withOption? c "SCNL" menu
  | .getChannels => withOption? c "METADATA" channels
  | .getMetadata => records? c
  | .getScn => samples? c false
  | .getScnl => samples? c true
  | .getScnlRaw => wave? c (.channel true)
  | .getWaveRaw => wave? c .idOnly
  | .getHelicorder => helicorder? c
  | .getRsam => rsam? c

/-! ## Descriptions -/

/-- The name of a request: its keyword, and the word that chooses among its variants. -/
def name : Request → String
  | version => "VERSION"
  | status _ _ => "STATUS"
  | menu _ withLocation => if withLocation then "MENU SCNL" else "MENU"
  | channels _ _ => "GETCHANNELS"
  | records _ .instrument => "GETMETADATA INSTRUMENT"
  | records _ .channel => "GETMETADATA CHANNEL"
  | samples _ withLocation _ => if withLocation then "GETSCNL" else "GETSCN"
  | wave _ (.channel _) _ => "GETSCNLRAW"
  | wave _ .idOnly _ => "GETWAVERAW"
  | helicorder _ _ => "GETSCNLHELIRAW"
  | rsam _ _ _ => "GETSCNLRSAMRAW"

/-- The channel and window of a request for data. -/
def targetText (data : DataRequest) : String := data.address.code ++ " " ++ data.window.text

/-- What a request is about: a channel, a window and for an amplitude series the period of its
means. Other requests are about the whole archive. -/
def target : Request → String
  | samples data _ _ | wave data _ _ | helicorder data _ => targetText data
  | rsam data period _ =>
    targetText data ++ match period with
      | none => " None"
      | some seconds => " Mean(" ++ Numeral.ofNat seconds ++ ")"
  | _ => ""

end Request

/-! ## From line to request -/

inductive Reading where
  /-- A line without a keyword. -/
  | empty
  | unsupported (keyword : String)
  /-- A command that does not fit its verb. -/
  | malformed (verb : Verb) (id : Option String)
  | wellFormed (request : Request)
deriving DecidableEq

namespace Reading

def ofLine (line : String) : Reading :=
  match Command.parse? line with
  | none => .empty
  | some command =>
    match Verb.ofKeyword? command.keyword with
    | none => .unsupported command.keyword
    | some verb =>
      match Request.ofCommand? command verb with
      | none => .malformed verb command.id?
      | some request => .wellFormed request

end Reading

end Seismic
