import Seismic.Server.Catalog
import Seismic.Window

/-!
# Server — the state that requests share, and actions on it

A request works on the archive only while it holds a *slot* of the pool, and there are a fixed
number of them. An action reads and changes the server and either gives a value or halts. It halts
with the archive's error, or because it would have to wait for a slot; what it changed until then
stays changed. `withSlot` is the only way to hold a slot, and gives it back whatever happens.
-/

namespace Seismic

/-! ## Slots

A pool that has been closed admits nobody; slots that are held stay valid and come back to it. -/

/-- Slots, and how many of them are free. -/
structure Pool where
  size : Nat
  free : Nat
  closed : Bool := false
deriving DecidableEq, Repr

inductive NoSlot where
  | closed
  | exhausted
deriving DecidableEq, Repr

namespace Pool

/-- An open pool with all its slots free, and at least one. -/
def ofSize (size : Nat) : Pool := ⟨max size 1, max size 1, false⟩

def acquire (p : Pool) : Except NoSlot Pool :=
  if p.closed then .error .closed
  else if p.free = 0 then .error .exhausted
  else .ok { p with free := p.free - 1 }

def release (p : Pool) : Pool := { p with free := p.free + 1 }

/-- Admits nobody from now on. -/
def close (p : Pool) : Pool := { p with closed := true }

@[simp] theorem size_release (p : Pool) : p.release.size = p.size := rfl
@[simp] theorem free_release (p : Pool) : p.release.free = p.free + 1 := rfl
@[simp] theorem closed_release (p : Pool) : p.release.closed = p.closed := rfl

@[simp] theorem size_close (p : Pool) : p.close.size = p.size := rfl
@[simp] theorem free_close (p : Pool) : p.close.free = p.free := rfl
@[simp] theorem closed_close (p : Pool) : p.close.closed = true := rfl

end Pool

/-! ## Counters

What connections have done so far, in 64-bit words that wrap around. -/

structure Counters where
  accepted : UInt64 := 0
  active : UInt64 := 0
  commands : UInt64 := 0
  bytesRead : UInt64 := 0
  bytesWritten : UInt64 := 0
deriving DecidableEq, Repr

namespace Counters

def opened (c : Counters) : Counters :=
  { c with accepted := c.accepted + 1, active := c.active + 1 }

def ended (c : Counters) : Counters := { c with active := c.active - 1 }

def commandDone (c : Counters) : Counters := { c with commands := c.commands + 1 }

/-- Bytes have come in. -/
def received (c : Counters) (count : Nat) : Counters :=
  { c with bytesRead := c.bytesRead + UInt64.ofNat count }

/-- Bytes have gone out. -/
def sent (c : Counters) (count : Nat) : Counters :=
  { c with bytesWritten := c.bytesWritten + UInt64.ofNat count }

end Counters

/-! ## Server and actions -/

/-- The state that requests share. -/
structure Server where
  archive : Archive := {}
  pool : Pool := .ofSize 4
  policy : Policy := {}
  catalog : Catalog := {}
  counters : Counters := {}
  clock : Clock
deriving DecidableEq

inductive Halt where
  | failed (error : ArchiveError)
  | waiting
deriving DecidableEq, Repr

/-- A computation on the server that may halt. -/
abbrev Action (β : Type) : Type := ExceptT Halt (StateM Server) β

namespace Action

def on {β : Type} (act : Action β) (server : Server) : Except Halt β × Server := act.run.run server

/-- The value that a function of the server gives. -/
def read {β : Type} (f : Server → β) : Action β := fun server => (.ok (f server), server)

def change (f : Server → Server) : Action Unit := fun server => (.ok (), f server)

/-- Runs an action while holding a slot. -/
def withSlot {β : Type} (act : Action β) : Action β := fun server =>
  match server.pool.acquire with
  | .error .closed => (.error (.failed .closed), server)
  | .error .exhausted => (.error .waiting, server)
  | .ok pool =>
    let (result, after) := act { server with pool := pool }
    (result, { after with pool := after.pool.release })

def ask {β : Type} (query : Archive → β) : Action β := fun server =>
  match server.archive.ask query with
  | (.ok value, archive) => (.ok value, { server with archive := archive })
  | (.error e, archive) => (.error (.failed e), { server with archive := archive })

/-- A listing: one that is kept if there is one, otherwise a new one, which is then kept. -/
def listing {β : Type} (kind : ListingKind β) : Action (List β) := do
  match ← read fun s => s.catalog.find? kind s.clock.running with
  | some kept => return kept
  | none =>
    let fresh ← withSlot (ask kind.query)
    change fun s => { s with catalog := s.catalog.keep kind s.clock.running fresh }
    return fresh

def now : Action Time := read fun s => s.clock.now

end Action

end Seismic
