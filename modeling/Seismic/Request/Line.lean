import Seismic.Product
import Seismic.Text.Escape
import Seismic.Text.Utf8

/-!
# Line — request lines in a stream of bytes

A request line ends with a newline byte; carriage returns before it do not belong to it. A line may
be no longer than a limit, counted in bytes before the newline, and is refused as soon as more
bytes than that have come without one.
-/

namespace Seismic

/-- A line that is longer than the limit. -/
structure LineTooLong where
  size : Nat
  limit : Nat
deriving DecidableEq, Repr

namespace LineTooLong

def message (e : LineTooLong) : String :=
  "line too long: " ++ Numeral.ofNat e.size ++ " bytes (max: " ++ Numeral.ofNat e.limit ++ ")"

end LineTooLong

/-- A request line and the number of bytes it took up with its newline. -/
structure Line where
  text : String
  consumed : Nat
deriving DecidableEq, Repr

namespace Line

/-- The bytes before the first newline, or all of them. -/
def body (buffer : Bytes) : Bytes := buffer.takeWhile (· ≠ 10)

def textOf (body : Bytes) : String :=
  String.ofList (Text.trimEnd (· = '\r') (Utf8.decodeLossy body).toList)

/-- The first line of a buffer, if it is complete. -/
def split (limit : Nat) (buffer : Bytes) : Except LineTooLong (Option Line) :=
  let body := body buffer
  if limit < body.length then .error ⟨body.length, limit⟩
  else if body.length < buffer.length then .ok (some ⟨textOf body, body.length + 1⟩)
  else .ok none

/-- A complete line takes up at least its newline and no more than the buffer. -/
theorem consumed_pos_and_le {limit : Nat} {buffer : Bytes} {line : Line}
    (h : split limit buffer = .ok (some line)) :
    0 < line.consumed ∧ line.consumed ≤ buffer.length := by
  unfold split at h
  by_cases hlong : limit < (body buffer).length
  · simp [hlong] at h
  · by_cases hfull : (body buffer).length < buffer.length
    · simp [hlong, hfull] at h
      subst h
      exact ⟨Nat.succ_pos _, hfull⟩
    · simp [hlong, hfull] at h

end Line

end Seismic
