import Mathlib.Data.List.TakeWhile
import Seismic.Request.Line

/-!
# Lines — the lines of a whole stream

`Line.split` takes one line off a buffer at a time. Here a stream of bytes is cut at all of its
newlines at once, with nothing buffered:

* **`joined_lines_append_tail`**, **`newline_not_mem`**: the lines, each with its newline, and the
  tail are the stream, and these are all its newlines;
* **`lines_append`** and **`tail_append`**: a line at the front of a stream is cut off without a
  look at what follows it;
* **`Line.split_cases`**: what taking one line off a buffer says about every stream that the buffer
  begins.
-/

namespace Seismic

/-! ## Up to the first separator -/

section Separator

variable {α : Type} [DecidableEq α] {separator : α} {text : List α}

theorem takeWhile_ne_append_cons (h : separator ∉ text) (rest : List α) :
    (text ++ separator :: rest).takeWhile (· ≠ separator) = text := by
  rw [List.takeWhile_append_of_pos fun b hb => decide_eq_true (ne_of_mem_of_not_mem hb h)]
  simp

theorem takeWhile_ne_eq_self (h : separator ∉ text) : text.takeWhile (· ≠ separator) = text := by
  rw [List.takeWhile_eq_self_iff]
  exact fun b hb => decide_eq_true (ne_of_mem_of_not_mem hb h)

end Separator

/-! ## The lines of a stream -/

namespace Stream

/-- The newline-terminated lines of a stream, without their newlines. -/
def lines (stream : Bytes) : List Bytes := (stream.splitOn 10).dropLast

/-- What follows the last newline of a stream. -/
def tail (stream : Bytes) : Bytes := (stream.splitOn 10).getLastD []

/-- Lines as bytes, each with its newline. -/
def joined (lines : List Bytes) : Bytes := lines.flatMap (· ++ [10])

@[simp]
theorem joined_nil : joined [] = [] :=
  rfl

@[simp]
theorem joined_cons (body : Bytes) (rest : List Bytes) :
    joined (body :: rest) = body ++ 10 :: joined rest := by
  unfold joined
  simp

variable {body stream : Bytes}

theorem lines_append (h : 10 ∉ body) (rest : Bytes) :
    lines (body ++ 10 :: rest) = body :: lines rest := by
  unfold lines
  rw [List.splitOn_append_cons_self_of_not_mem h,
    List.dropLast_cons_of_ne_nil (List.splitOn_ne_nil 10 rest)]

theorem tail_append (h : 10 ∉ body) (rest : Bytes) : tail (body ++ 10 :: rest) = tail rest := by
  unfold tail
  rw [List.splitOn_append_cons_self_of_not_mem h]
  rcases hpieces : List.splitOn 10 rest with _ | ⟨piece, pieces⟩
  · exact absurd hpieces (List.splitOn_ne_nil 10 rest)
  · rfl

theorem lines_eq_nil (h : 10 ∉ stream) : lines stream = [] := by
  unfold lines
  rw [List.splitOn_eq_singleton h]
  rfl

theorem tail_eq_self (h : 10 ∉ stream) : tail stream = stream := by
  unfold tail
  rw [List.splitOn_eq_singleton h]
  rfl

/-- A stream is free of newlines, or it has a first line. -/
theorem not_mem_or_exists_line (stream : Bytes) :
    10 ∉ stream ∨ ∃ body rest, 10 ∉ body ∧ stream = body ++ 10 :: rest := by
  by_cases h : 10 ∈ stream
  · obtain ⟨body, rest, hstream, hbody⟩ := List.eq_append_cons_of_mem h
    exact .inr ⟨body, rest, hbody, hstream⟩
  · exact .inl h

/-- A stream is made line by line: induction on its length, by what is before the first newline. -/
theorem induction_lines {motive : Bytes → Prop} (last : ∀ stream, 10 ∉ stream → motive stream)
    (line : ∀ body rest, 10 ∉ body → motive rest → motive (body ++ 10 :: rest))
    (stream : Bytes) : motive stream := by
  induction h : stream.length using Nat.strongRecOn generalizing stream with
  | _ n ih =>
    rcases not_mem_or_exists_line stream with hfree | ⟨body, rest, hbody, rfl⟩
    · exact last stream hfree
    · have hshorter : rest.length < n := by
        rw [← h, List.length_append, List.length_cons]
        omega
      exact line body rest hbody (ih rest.length hshorter rest rfl)

/-- **No byte is lost**: the lines and the tail make up the stream. -/
theorem joined_lines_append_tail (stream : Bytes) :
    joined (lines stream) ++ tail stream = stream := by
  induction stream using induction_lines with
  | last stream hfree => rw [lines_eq_nil hfree, tail_eq_self hfree, joined_nil, List.nil_append]
  | line body rest hbody ih =>
    rw [lines_append hbody, tail_append hbody, joined_cons, List.append_assoc, List.cons_append, ih]

/-- No newline is left within a line, nor in the tail. -/
theorem newline_not_mem (stream : Bytes) :
    (∀ body ∈ lines stream, 10 ∉ body) ∧ 10 ∉ tail stream := by
  induction stream using induction_lines with
  | last stream hfree =>
    rw [lines_eq_nil hfree, tail_eq_self hfree]
    exact ⟨nofun, hfree⟩
  | line first rest hfirst ih =>
    rw [lines_append hfirst, tail_append hfirst, List.forall_mem_cons]
    exact ⟨⟨hfirst, ih.1⟩, ih.2⟩

end Stream

/-! ## Taking one line off a buffer -/

namespace Line

theorem body_append_eq {bytes : Bytes} (h : 10 ∉ bytes) (rest : Bytes) :
    body (bytes ++ 10 :: rest) = bytes :=
  takeWhile_ne_append_cons h rest

theorem body_eq_self {bytes : Bytes} (h : 10 ∉ bytes) : body bytes = bytes :=
  takeWhile_ne_eq_self h

/-- **What taking a line off a buffer finds**: too long a beginning, a complete line and the bytes
after it, or an incomplete line that may still grow. -/
theorem split_cases (limit : Nat) (buffer : Bytes) :
    (limit < (body buffer).length ∧ split limit buffer = .error ⟨(body buffer).length, limit⟩) ∨
    (∃ bytes rest, 10 ∉ bytes ∧ bytes.length ≤ limit ∧ buffer = bytes ++ 10 :: rest ∧
      split limit buffer = .ok (some ⟨textOf bytes, bytes.length + 1⟩)) ∨
    (10 ∉ buffer ∧ buffer.length ≤ limit ∧ split limit buffer = .ok none) := by
  by_cases hlong : limit < (body buffer).length
  · exact .inl ⟨hlong, if_pos hlong⟩
  right
  -- With a newline in the buffer the line is complete; without one the buffer is its beginning.
  rcases Stream.not_mem_or_exists_line buffer with hfree | ⟨bytes, rest, hbytes, rfl⟩
  · have hbody := body_eq_self hfree
    refine .inr ⟨hfree, ?_, ?_⟩
    · rw [hbody] at hlong
      exact Nat.le_of_not_lt hlong
    · unfold split
      rw [hbody] at hlong ⊢
      rw [if_neg hlong, if_neg (Nat.lt_irrefl _)]
  · have hbody := body_append_eq hbytes rest
    rw [hbody] at hlong
    refine .inl ⟨bytes, rest, hbytes, Nat.le_of_not_lt hlong, rfl, ?_⟩
    have hfull : bytes.length < (bytes ++ 10 :: rest).length := by
      rw [List.length_append, List.length_cons]
      omega
    unfold split
    simp only [hbody, if_neg hlong, if_pos hfull]

/-- A complete line stands at the front of the buffer and is within the limit. -/
theorem exists_of_split {limit : Nat} {buffer : Bytes} {line : Line}
    (h : split limit buffer = .ok (some line)) :
    ∃ bytes rest, 10 ∉ bytes ∧ bytes.length ≤ limit ∧ buffer = bytes ++ 10 :: rest ∧
      line = ⟨textOf bytes, bytes.length + 1⟩ := by
  rcases split_cases limit buffer with ⟨_, hsplit⟩ |
    ⟨bytes, rest, hbytes, hlimit, hbuffer, hsplit⟩ | ⟨_, _, hsplit⟩
  · rw [hsplit] at h
    cases h
  · rw [hsplit] at h
    cases h
    exact ⟨bytes, rest, hbytes, hlimit, hbuffer, rfl⟩
  · rw [hsplit] at h
    cases h

/-- A buffer without a complete line has no newline and is within the limit. -/
theorem free_of_split {limit : Nat} {buffer : Bytes} (h : split limit buffer = .ok none) :
    10 ∉ buffer ∧ buffer.length ≤ limit := by
  rcases split_cases limit buffer with ⟨_, hsplit⟩ | ⟨_, _, _, _, _, hsplit⟩ |
    ⟨hfree, hshort, _⟩
  · rw [hsplit] at h
    cases h
  · rw [hsplit] at h
    cases h
  · exact ⟨hfree, hshort⟩

/-- A buffer whose line is refused has too many bytes before a newline. -/
theorem too_long_of_split {limit : Nat} {buffer : Bytes} {e : LineTooLong}
    (h : split limit buffer = .error e) : limit < (body buffer).length := by
  rcases split_cases limit buffer with ⟨hlong, _⟩ | ⟨_, _, _, _, _, hsplit⟩ | ⟨_, _, hsplit⟩
  · exact hlong
  · rw [hsplit] at h
    cases h
  · rw [hsplit] at h
    cases h

/-- What is left when a line and its newline are taken off. -/
theorem drop_length_add_one (bytes rest : Bytes) :
    (bytes ++ 10 :: rest).drop (bytes.length + 1) = rest := by
  rw [← List.singleton_append, ← List.append_assoc]
  exact List.drop_left' (by rw [List.length_append, List.length_singleton])

/-- Too long a beginning stays too long, whatever follows: the first line of the stream is longer
than the limit, or the stream has no line and its tail is. -/
theorem too_long_of_append {limit : Nat} {buffer : Bytes} (more : Bytes)
    (h : limit < (body buffer).length) :
    (∃ first rest, Stream.lines (buffer ++ more) = first :: rest ∧ limit < first.length) ∨
      (Stream.lines (buffer ++ more) = [] ∧ limit < (Stream.tail (buffer ++ more)).length) := by
  -- What follows can only lengthen the part before the first newline.
  have hgrows : (body buffer).length ≤ (body (buffer ++ more)).length := by
    unfold body
    rw [List.takeWhile_append]
    split
    · have hbegins : (buffer.takeWhile (· ≠ 10)).length ≤ buffer.length :=
        (List.takeWhile_prefix _).length_le
      rw [List.length_append]
      omega
    · exact le_rfl
  rcases Stream.not_mem_or_exists_line (buffer ++ more) with hfree | ⟨first, rest, hfirst, hstream⟩
  · rw [body_eq_self hfree] at hgrows
    refine .inr ⟨Stream.lines_eq_nil hfree, ?_⟩
    rw [Stream.tail_eq_self hfree]
    omega
  · rw [hstream, body_append_eq hfirst] at hgrows
    refine .inl ⟨first, Stream.lines rest, ?_, by omega⟩
    rw [hstream, Stream.lines_append hfirst]

end Line

end Seismic
