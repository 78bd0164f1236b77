import Seismic.Server.Answer

/-!
# Session — what happens to a server over time

Requests are not all that happens to a server. Time passes, listings are asked for by themselves or
thrown away, the archive changes or goes offline and comes back, and slots are held outside
requests. A session is a server together with the slots that are held in this way. One event takes
it to the next, and a run is a list of events.
-/

namespace Seismic

namespace Catalog

/-- The parts of a catalog: channels without and with metadata, and instruments. -/
inductive Part where
  | brief
  | full
  | instruments
deriving DecidableEq, Repr

namespace Part

/-- What the listings of a part are made of. -/
def Entry : Part → Type
  | brief | full => Listing
  | instruments => Instrument

def kind : (part : Part) → ListingKind part.Entry
  | brief => .brief
  | full => .full
  | instruments => .instruments

end Part

end Catalog

inductive Event where
  | request (line : String)
  /-- A listing is asked for by itself. -/
  | list (part : Catalog.Part)
  /-- All listings that are kept are thrown away. -/
  | invalidate
  | advance (ms : Nat)
  /-- The archive changes in any way, also by going offline or coming back. -/
  | change (f : Archive → Archive)
  /-- A slot is taken and held. -/
  | hold
  /-- A slot that is held, if there is one, is given back. -/
  | release
  /-- The pool is closed. -/
  | close

/-- What an event comes to. -/
inductive Report where
  | answered (outcome : Outcome)
  | listed (part : Catalog.Part) (result : Except Halt (List part.Entry))
  /-- There is no slot to hold. -/
  | refused (reason : NoSlot)
  | done

structure Session where
  server : Server
  held : Nat := 0
deriving DecidableEq

namespace Session

def step (x : Session) : Event → Report × Session
  | .request line =>
    let (outcome, server) := x.server.answer line
    (.answered outcome, { x with server := server })
  | .list part =>
    let (result, server) := (Action.listing part.kind).on x.server
    (.listed part result, { x with server := server })
  | .invalidate =>
    (.done, { x with server := { x.server with catalog := x.server.catalog.clear } })
  | .advance ms =>
    (.done, { x with server := { x.server with clock := x.server.clock.advance ms } })
  | .change f => (.done, { x with server := { x.server with archive := f x.server.archive } })
  | .hold =>
    match x.server.pool.acquire with
    | .ok pool => (.done, ⟨{ x.server with pool := pool }, x.held + 1⟩)
    | .error reason => (.refused reason, x)
  | .release =>
    if x.held = 0 then (.done, x)
    else (.done, ⟨{ x.server with pool := x.server.pool.release }, x.held - 1⟩)
  | .close => (.done, { x with server := { x.server with pool := x.server.pool.close } })

theorem step_request (x : Session) (line : String) :
    x.step (.request line) =
      (.answered (x.server.answer line).1, { x with server := (x.server.answer line).2 }) :=
  rfl

theorem step_list (x : Session) (part : Catalog.Part) :
    x.step (.list part) =
      (.listed part ((Action.listing part.kind).on x.server).1,
        { x with server := ((Action.listing part.kind).on x.server).2 }) :=
  rfl

/-- What the events of a run come to, and the session after them. -/
def run (x : Session) : List Event → List Report × Session
  | [] => ([], x)
  | event :: events =>
    let (report, x) := x.step event
    let (reports, x) := x.run events
    (report :: reports, x)

theorem run_cons (x : Session) (event : Event) (events : List Event) :
    x.run (event :: events) =
      ((x.step event).1 :: ((x.step event).2.run events).1, ((x.step event).2.run events).2) :=
  rfl

/-- A query through a slot that is held. -/
def use? {β : Type} (x : Session) (query : Archive → β) : Option (Except ArchiveError β) :=
  if x.held = 0 then none else some (x.server.archive.ask query).1

end Session

end Seismic
