import Seismic.Product
import Seismic.Reply.Zlib

/-!
# Decoded — reading binary products back

A reader takes a value off the front of some bytes and leaves the rest, and each writer of `Layout`
has one that undoes it whatever follows. The readers put together read a whole wave, and the reader
of stored blocks undoes `Zlib.pack`.

* **`Layout.wave?_wave`**: a written wave is read back, with the number of samples it announces;
* **`Zlib.unpack?_pack`**: a packed payload is unpacked again.
-/

namespace Seismic

/-- The sign is the highest bit, and the code is below it. -/
theorem Binary64.toNat_toBits (x : Binary64) :
    x.toBits.toNat = (if x.negative then Nat.pow 2 63 else 0) + x.code := by
  have hcode := x.code_lt
  have hpow : Nat.pow 2 63 = 9223372036854775808 := rfl
  unfold toBits
  rw [hpow] at hcode ⊢
  rw [UInt64.toNat_ofNat']
  split
  · omega
  · omega

/-- **The bits of a number are the number.** -/
theorem Binary64.ofBits_toBits (x : Binary64) : ofBits x.toBits = x := by
  have hcode := x.code_lt
  have hbits := x.toNat_toBits
  have hpow : Nat.pow 2 63 = 9223372036854775808 := rfl
  rcases x with ⟨negative, code, _⟩
  simp only [ofBits, Binary64.mk.injEq, hbits, hpow] at *
  cases negative with
  | false => simp; omega
  | true => simp; omega

namespace Layout

/-! ## Words -/

/-- The number in the first `width` bytes, the highest first. -/
def takeWord? : (width : Nat) → Bytes → Option (Nat × Bytes)
  | 0, bytes => some (0, bytes)
  | width + 1, bytes =>
    match takeWord? width bytes with
    | some (high, low :: rest) => some (high * 256 + low.toNat, rest)
    | _ => none

theorem length_word (width n : Nat) : (word width n).length = width := by
  induction width generalizing n with
  | zero => rfl
  | succ width ih =>
    unfold word
    rw [List.length_append, ih, List.length_singleton]

theorem length_number (x : Binary64) : (number x).length = 8 := length_word 8 _

theorem length_integer (n : Int32) : (integer n).length = 4 := length_word 4 _

theorem length_count (n : Nat) : (count n).length = 4 := length_word 4 _

/-- How many numbers a word can hold. -/
def wordCount (width : Nat) : Nat := Nat.pow 256 width

/-- A word is read back up to what its bytes can hold. -/
theorem takeWord?_word (width n : Nat) (rest : Bytes) :
    takeWord? width (word width n ++ rest) = some (n % wordCount width, rest) := by
  -- By induction on the width: the last byte is the lowest digit, and the bytes before it are a
  -- word.
  induction width generalizing n rest with
  | zero =>
    have hone : n % wordCount 0 = 0 := Nat.mod_one n
    rw [hone]
    rfl
  | succ width ih =>
    have hlow : (UInt8.ofNat (n % 256)).toNat = n % 256 := by
      rw [UInt8.toNat_ofNat']
      omega
    unfold word takeWord?
    rw [List.append_assoc, ih, List.singleton_append]
    have hcount : wordCount (width + 1) = 256 * wordCount width := Nat.pow_succ'
    simp only [hlow]
    rw [hcount, Nat.mod_mul, Nat.mul_comm (n / 256 % _), Nat.add_comm]

/-! ## Numbers -/

def takeNumber? (bytes : Bytes) : Option (Binary64 × Bytes) :=
  (takeWord? 8 bytes).map fun (n, rest) => (.ofBits (.ofNat n), rest)

theorem takeNumber?_number (x : Binary64) (rest : Bytes) :
    takeNumber? (number x ++ rest) = some (x, rest) := by
  have hword : x.toBits.toNat % wordCount 8 = x.toBits.toNat := Nat.mod_eq_of_lt x.toBits.toNat_lt
  unfold takeNumber? number
  simp only [takeWord?_word, hword, Option.map_some, UInt64.ofNat_toNat, Binary64.ofBits_toBits]

def takeInteger? (bytes : Bytes) : Option (Int32 × Bytes) :=
  (takeWord? 4 bytes).map fun (n, rest) => ((UInt32.ofNat n).toInt32, rest)

theorem takeInteger?_integer (n : Int32) (rest : Bytes) :
    takeInteger? (integer n ++ rest) = some (n, rest) := by
  have hword : n.toUInt32.toNat % wordCount 4 = n.toUInt32.toNat :=
    Nat.mod_eq_of_lt n.toUInt32.toNat_lt
  unfold takeInteger? integer
  simp only [takeWord?_word, hword, Option.map_some, UInt32.ofNat_toNat, Int32.toInt32_toUInt32]

/-- A number of entries is read as it is announced, which is itself if it fits. -/
theorem takeInteger?_count (n : Nat) (rest : Bytes) :
    takeInteger? (count n ++ rest) = some (Int32.ofNat n, rest) := by
  have hword : UInt32.ofNat (n % wordCount 4) = UInt32.ofNat n := by
    have hcount : wordCount 4 = 4294967296 := rfl
    apply UInt32.toNat_inj.mp
    rw [UInt32.toNat_ofNat', UInt32.toNat_ofNat', hcount]
    omega
  unfold takeInteger? count
  simp only [takeWord?_word, Option.map_some, hword]
  rfl

/-! ## Entries -/

section Entries

variable {β : Type} {take : Bytes → Option (β × Bytes)} {write : β → Bytes}

/-- So many entries, one after the other. -/
def takeMany? (take : Bytes → Option (β × Bytes)) : Nat → Bytes → Option (List β × Bytes)
  | 0, bytes => some ([], bytes)
  | n + 1, bytes => do
    let (v, bytes) ← take bytes
    let (vs, bytes) ← takeMany? take n bytes
    return (v :: vs, bytes)

/-- Entries are read back one by one, if each is. -/
theorem takeMany?_flatMap {vs : List β}
    (h : ∀ v ∈ vs, ∀ rest, take (write v ++ rest) = some (v, rest)) (rest : Bytes) :
    takeMany? take vs.length (vs.flatMap write ++ rest) = some (vs, rest) := by
  induction vs with
  | nil => rfl
  | cons v vs ih =>
    obtain ⟨hfirst, hothers⟩ := List.forall_mem_cons.mp h
    unfold List.length takeMany?
    rw [List.flatMap_cons, List.append_assoc, hfirst]
    simp only [Option.bind_eq_bind, Option.bind_some, ih hothers]
    rfl

theorem length_flatMap_of_length {each : Nat} (h : ∀ v, (write v).length = each) (vs : List β) :
    (vs.flatMap write).length = each * vs.length := by
  induction vs with
  | nil => rfl
  | cons v vs ih =>
    rw [List.flatMap_cons, List.length_append, List.length_cons, h, ih, Nat.mul_succ, Nat.add_comm]

end Entries

/-! ## Waves -/

/-- The wave in some bytes, all of which it takes up, and the number of samples it announces. -/
def wave? (bytes : Bytes) : Option (Segment Time × Int32) := do
  let (start, bytes) ← takeNumber? bytes
  let (rate, bytes) ← takeNumber? bytes
  let (announced, bytes) ← takeInteger? bytes
  let (samples, rest) ← takeMany? takeInteger? (bytes.length / 4) bytes
  if rest.isEmpty then some (⟨start, rate, samples⟩, announced) else none

/-- **A written wave is read back.** -/
theorem wave?_wave (s : Segment Time) : wave? (wave s) = some (s, Int32.ofNat s.length) := by
  -- What is left behind the head are the samples, four bytes each.
  have hlength : (s.samples.flatMap integer).length / 4 = s.samples.length := by
    rw [length_flatMap_of_length length_integer]
    omega
  have hsamples := takeMany?_flatMap (fun n (_ : n ∈ s.samples) => takeInteger?_integer n) []
  rw [List.append_nil] at hsamples
  unfold wave? wave
  simp only [List.append_assoc, takeNumber?_number, takeInteger?_count, hlength, hsamples,
    Option.bind_eq_bind, Option.bind_some]
  rfl

end Layout

namespace Zlib

/-! ## Stored blocks -/

/-- The payload of the stored blocks at the front, up to the last one, and what follows it. -/
def unblock? : List UInt8 → Option (List UInt8 × List UInt8)
  | final :: low :: high :: low' :: high' :: rest =>
    let length := low.toNat + high.toNat * 256
    if low'.toNat + high'.toNat * 256 = blockLimit - length && length ≤ rest.length then
      if final = 1 then some (rest.take length, rest.drop length)
      else if final = 0 then
        (unblock? (rest.drop length)).map fun (more, after) => (rest.take length ++ more, after)
      else none
    else none
  | _ => none
termination_by bytes => bytes.length
decreasing_by
  simp only [List.length_drop, List.length_cons]
  omega

/-- The payload of a stream of stored blocks whose checksum is right. -/
def unpack? : List UInt8 → Option (List UInt8)
  | 0x78 :: 0x9C :: body =>
    match unblock? body with
    | some (raw, sum) => if sum = fourBytes (checksum raw) then some raw else none
    | none => none
  | _ => none

theorem toNat_twoBytes {n : Nat} (h : n ≤ blockLimit) :
    (UInt8.ofNat n).toNat + (UInt8.ofNat (n / 256)).toNat * 256 = n := by
  unfold blockLimit at h
  rw [UInt8.toNat_ofNat', UInt8.toNat_ofNat']
  omega

/-- One block is read back, and more are read behind it unless it is the last. -/
theorem unblock?_block {bytes : List UInt8} (h : bytes.length ≤ blockLimit) (final : Bool)
    (rest : List UInt8) :
    unblock? (block final bytes ++ rest) =
      if final then some (bytes, rest)
      else (unblock? rest).map fun (more, after) => (bytes ++ more, after) := by
  have hlength := toNat_twoBytes h
  have hcomplement := toNat_twoBytes (Nat.sub_le blockLimit bytes.length)
  have hrest : bytes.length ≤ (bytes ++ rest).length := by
    rw [List.length_append]
    omega
  -- The header's lengths are read back, so the payload is cut off where it ends.
  unfold block twoBytes
  simp only [List.map_cons, List.map_nil, List.cons_append, List.nil_append]
  rw [unblock?]
  simp only [hlength, hcomplement, hrest, decide_true, Bool.and_true, List.take_left,
    List.drop_left, if_true]
  cases final with
  | false => rfl
  | true => rfl

-- By induction along the blocks: only the last one is marked as such.
theorem unblock?_blocks (raw rest : List UInt8) :
    unblock? (blocks raw ++ rest) = some (raw, rest) := by
  induction raw using blocks.induct with
  | case1 raw hshort =>
    rw [blocks, dif_pos hshort, unblock?_block hshort]
    rfl
  | case2 raw hlong ih =>
    have hfirst : (raw.take blockLimit).length ≤ blockLimit := List.length_take_le _ _
    rw [blocks, dif_neg hlong, List.append_assoc, unblock?_block hfirst, ih]
    simp only [Bool.false_eq_true, if_false, Option.map_some, List.take_append_drop]

/-- **A packed payload is unpacked again.** -/
theorem unpack?_pack (raw : List UInt8) : unpack? (pack raw) = some raw := by
  unfold pack unpack?
  simp only [List.cons_append, List.nil_append, unblock?_blocks, if_true]

end Zlib

end Seismic
