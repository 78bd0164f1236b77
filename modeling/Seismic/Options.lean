import Seismic.Window

/-!
# Options — the command line of a server

Every option takes a value: attached behind an equals sign, or as the next argument if that does not
start with a dash. `-p` is short for `--port` and may have its value attached directly. An option
may be given once. `--help` and `--version` take no value and end the reading; after `--` nothing
may follow.

A value is only looked at when the option is *complete*, that is, when the next option starts or the
arguments end. So of two mistakes it is not always the first one that is reported.
-/

namespace Seismic

structure Options where
  host : String := "127.0.0.1"
  port : Nat := 16022
  /-- Days of history that may be served, zero for all. -/
  maxDays : Nat := 0
  /-- Seconds before the present that are withheld. -/
  embargo : Binary64 := 0
  /-- How many requests may work on the archive at once. -/
  poolSize : Nat := 8
  /-- For how many seconds a listing is kept. -/
  catalogLifetime : Nat := 30
  /-- The longest request line, in bytes. -/
  maxLine : Nat := 8192
  /-- The longest wave, in samples. -/
  maxSamples : Nat := 10000000
  snapshot : Option String := none
deriving DecidableEq

/-- Why a command line gives no options. -/
inductive UsageError where
  | help
  | version
  /-- There is no such option, or an argument belongs to none. -/
  | unknownArgument
  /-- An option has no value, or an empty one where a name is needed. -/
  | missingValue
  | invalidValue
  | repeated
  /-- A value is attached where none is taken. -/
  | unexpectedValue
deriving DecidableEq, Repr

namespace Options

/-- What an argument may name. -/
inductive Name where
  | host
  | port
  | maxDays
  | embargo
  | poolSize
  | catalogLifetime
  | maxLine
  | maxSamples
  | snapshot
deriving DecidableEq, Repr

/-- What a dash and a name may stand for. -/
inductive Meaning where
  | option (name : Name)
  | help
  | version

def ofLong? : String → Option Meaning
  | "host" => some (.option .host)
  | "port" => some (.option .port)
  | "max-days" => some (.option .maxDays)
  | "embargo" => some (.option .embargo)
  | "pool-size" => some (.option .poolSize)
  | "catalog-ttl" => some (.option .catalogLifetime)
  | "max-line" => some (.option .maxLine)
  | "max-samples" => some (.option .maxSamples)
  | "snapshot" => some (.option .snapshot)
  | "help" => some .help
  | "version" => some .version
  | _ => none

def ofLetter? : Char → Option Meaning
  | 'p' => some (.option .port)
  | 'h' => some .help
  | 'V' => some .version
  | _ => none

/-! ## Values -/

def wordLimit : Nat := Nat.pow 2 64 - 1

/-- A natural number up to `hi`, written as a signed 64-bit integer. -/
def bounded? (hi : Nat) (text : String) : Option Nat :=
  (Numeral.intWithin? 0 hi text).map Int.toNat

/-- The options with one of them set. -/
def set (o : Options) (name : Name) (text : String) : Except UsageError Options :=
  let read {β : Type} (value : Option β) (put : β → Options) : Except UsageError Options :=
    match value with
    | some v => .ok (put v)
    | none => .error .invalidValue
  match name with
  | .host => .ok { o with host := text }
  | .port => read (bounded? 65535 text) fun v => { o with port := v }
  | .maxDays => read (bounded? (Nat.pow 2 32 - 1) text) fun v => { o with maxDays := v }
  | .embargo => read (Binary64.ofText? text) fun v => { o with embargo := v }
  | .poolSize => read (Numeral.natUpTo? wordLimit text) fun v => { o with poolSize := v }
  | .catalogLifetime =>
    read (Numeral.natUpTo? wordLimit text) fun v => { o with catalogLifetime := v }
  | .maxLine => read (Numeral.natUpTo? wordLimit text) fun v => { o with maxLine := v }
  | .maxSamples => read (Numeral.natUpTo? wordLimit text) fun v => { o with maxSamples := v }
  | .snapshot =>
    if text.isEmpty then .error .missingValue else .ok { o with snapshot := some text }

/-! ## Arguments -/

inductive Argument where
  /-- Two dashes alone. -/
  | separator
  /-- Two dashes and a name, with what is attached behind an equals sign. -/
  | long (name : String) (attached : Option String)
  /-- A dash and a letter, with what is attached directly or behind an equals sign. -/
  | short (letter : Char) (attached : Option String)
  /-- Anything else. -/
  | plain (text : String)

/-- The text behind an equals sign. -/
def behindEquals : List Char → Option String
  | '=' :: rest => some (String.ofList rest)
  | _ => none

/-- The text that is attached to a letter. -/
def attachedToLetter : List Char → Option String
  | [] => none
  | rest => some ((behindEquals rest).getD (String.ofList rest))

def Argument.ofText (text : String) : Argument :=
  match text.toList with
  | ['-', '-'] => .separator
  | '-' :: '-' :: rest =>
    .long (String.ofList (rest.takeWhile (· ≠ '='))) (behindEquals (rest.dropWhile (· ≠ '=')))
  | '-' :: letter :: rest => .short letter (attachedToLetter rest)
  | _ => .plain text

/-! ## Reading -/

/-- A command line while it is read: the options so far, those that have been given, the one that
is not complete yet with its value, and whether nothing may follow. -/
structure Draft where
  options : Options := {}
  given : List Name := []
  pending : Option (Name × Option String) := none
  separated : Bool := false

namespace Draft

def complete (d : Draft) (name : Name) (value : Option String) : Except UsageError Draft :=
  match value with
  | none => .error .missingValue
  | some text =>
    if name ∈ d.given then .error .repeated
    else (d.options.set name text).map fun options =>
      { d with options := options, given := name :: d.given, pending := none }

/-- Completes the pending option, if there is one. -/
def settle (d : Draft) : Except UsageError Draft :=
  match d.pending with
  | none => .ok d
  | some (name, value) => d.complete name value

/-- Reads a name with what is attached to it. -/
def named (d : Draft) (meaning : Option Meaning) (attached : Option String) :
    Except UsageError Draft :=
  match meaning, attached with
  | none, _ => .error .unknownArgument
  | some (.option name), some text => d.settle.bind (·.complete name (some text))
  | some (.option name), none => d.settle.map fun d => { d with pending := some (name, none) }
  | some .help, _ => d.settle.bind fun _ => .error .help
  | some .version, _ => d.settle.bind fun _ => .error .version

def step (d : Draft) (argument : String) : Except UsageError Draft :=
  if d.separated then .error .unknownArgument
  else
    match Argument.ofText argument with
    | .separator => .ok { d with separated := true }
    | .long name attached =>
      match ofLong? name, attached with
      | some .help, some _ | some .version, some _ => .error .unexpectedValue
      | meaning, attached => d.named meaning attached
    | .short letter attached => d.named (ofLetter? letter) attached
    | .plain text =>
      match d.pending with
      | some (name, none) => .ok { d with pending := some (name, some text) }
      | _ => .error .unknownArgument

end Draft

/-- The options that the arguments of a command line give. -/
def ofArguments (arguments : List String) : Except UsageError Options := do
  let draft ← arguments.foldlM Draft.step {}
  return (← draft.settle).options

/-! ## What follows from the options -/

/-- The address that the server listens on. -/
def bindAddress (o : Options) : String := o.host ++ ":" ++ Numeral.ofNat o.port

/-- The limits on what may be served. An embargo that is not positive is none. -/
def policy (o : Options) : Policy where
  maxDays := o.maxDays
  embargo := o.embargo.max 0

/-- Whether the options are those of a bare command line, with numbers compared as numbers. -/
def isDefault (o : Options) : Bool :=
  o.embargo.numEq 0 && { o with embargo := 0 } == ({} : Options)

end Options

end Seismic
