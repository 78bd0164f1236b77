import Seismic.Server.Data
import Seismic.Server.Listings
import Seismic.Server.Status

/-!
# Answer — from a request line to a reply

A line is read, and a request is carried out. A blank line has no answer, and neither has a
malformed command of one of the older verbs.
-/

namespace Seismic

inductive Outcome where
  | reply (reply : Reply)
  | silent
  /-- The archive failed; there is no reply. -/
  | failed (error : ArchiveError)
  /-- The request has to wait for a slot. -/
  | waiting
deriving DecidableEq

namespace Request

def perform : Request → Action Reply
  | version => return .line ("PROTOCOL_VERSION: " ++ Numeral.ofNat protocolVersion)
  | status id threshold => Status.reply id threshold
  | menu id withLocation => Listings.menu id withLocation
  | channels id verbose => Listings.channels id verbose
  | records id kind => Listings.records id kind
  | samples data withLocation fill => Data.samples data withLocation fill
  | wave data framing compressed => Data.wave data framing compressed
  | helicorder data compressed => Data.helicorder data compressed
  | rsam data period compressed => Data.rsam data period compressed

end Request

namespace Server

def answer (server : Server) (line : String) : Outcome × Server :=
  match Reading.ofLine line with
  | .empty => (.silent, server)
  | .unsupported keyword => (.reply (.unsupported keyword), server)
  | .malformed verb id =>
    match verb.onMismatch with
    | .ignored => (.silent, server)
    | .rejected => (.reply (.malformed id), server)
  | .wellFormed request =>
    match request.perform.on server with
    | (.ok reply, after) => (.reply reply, after)
    | (.error (.failed e), after) => (.failed e, after)
    | (.error .waiting, after) => (.waiting, after)

end Server

end Seismic
