import Seismic.Connection
import Seismic.Options
import Seismic.Snapshot
import Std.Time.DateTime.Timestamp

/-!
# Main — a server for one client on the standard streams

The program reads its options, loads the snapshot if one is given, and then answers the request
lines on standard input until they end. To serve a network, start it behind a listener that connects
each client to its own instance.
-/

namespace Seismic

def usageText : String :=
  "Options: --host HOST, -p or --port PORT, --max-days DAYS, --embargo SECONDS,\n"
    ++ "  --pool-size COUNT, --catalog-ttl SECONDS, --max-line BYTES, --max-samples COUNT,\n"
    ++ "  --snapshot FILE"

def versionText : String := "0.1.0"

/-- The wording of an unusable command line. -/
def UsageError.message : UsageError → String
  | help => usageText
  | version => versionText
  | unknownArgument => "error: unknown argument"
  | missingValue => "error: an option has no value"
  | invalidValue => "error: a value cannot be read"
  | repeated => "error: an option is given twice"
  | unexpectedValue => "error: a value is given where none is taken"

/-- The present, as the system has it. -/
def systemClock : IO Clock := do
  let nanoseconds := (← Std.Time.Timestamp.now).toNanosecondsSinceUnixEpoch.val
  return ⟨⟨nanoseconds / 1000000000, (nanoseconds % 1000000000).toNat⟩, ← IO.monoMsNow⟩

def openArchive (options : Options) : IO Archive := do
  let empty := Archive.withMaxSamples options.maxSamples
  match options.snapshot with
  | none => return empty
  | some path =>
    match Snapshot.ofFile (← IO.FS.readBinFile path).toList with
    | .ok snapshot => return empty.load snapshot
    | .error e => throw (IO.userError e.message)

/-- How many bytes are asked for in one read. -/
def readSize : USize := 4096

/-- Serves a client until it goes away. -/
partial def serve (limit : Nat) (input output : IO.FS.Stream) (c : Connection) : IO Ending := do
  let c := { c with server := { c.server with clock := ← systemClock } }
  let (ending, c) := c.drain limit none
  output.write ⟨c.output.toArray⟩
  output.flush
  match ending with
  | some ending => return ending
  | none =>
    let bytes ← input.read readSize
    if bytes.isEmpty then return c.endOfStream
    serve limit input output ({ c with replies := [] }.receive bytes.toList)

end Seismic

open Seismic in
/-- Serves the client on the standard streams. -/
def main (arguments : List String) : IO UInt32 := do
  match Options.ofArguments arguments with
  | .error e =>
    if e = .help || e = .version then
      IO.println e.message
      return 0
    IO.eprintln e.message
    return 2
  | .ok options =>
    let server : Server := {
      archive := ← openArchive options
      pool := .ofSize options.poolSize
      policy := options.policy
      catalog := { lifetime := options.catalogLifetime * 1000 }
      clock := ← systemClock }
    let ending ← serve options.maxLine (← IO.getStdin) (← IO.getStdout) (.accept server)
    IO.eprintln ending.message
    return 0
