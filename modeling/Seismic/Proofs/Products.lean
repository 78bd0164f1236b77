import Seismic.Proofs.Decoded

/-!
# Products — binary products are read back

A client that knows the layout of a product reads its head, takes the number of entries that this
announces, and stops there. It gets back the product, to the last bit, and what follows the product
is left for it to read.

* **`takeCounted?_flatMap`**: so many entries as are announced, of any kind;
* **`Readable`**: what this comes to for one kind of product;
* **`products_readable`**: all three kinds are readable.
-/

namespace Seismic

/-- No bits are lost when a number is read. -/
theorem Binary64.toBits_ofBits (bits : UInt64) : (ofBits bits).toBits = bits := by
  apply UInt64.toNat_inj.mp
  rw [toNat_toBits]
  have hbits := bits.toNat_lt
  have hpow : Nat.pow 2 63 = 9223372036854775808 := rfl
  simp only [ofBits, decide_eq_true_eq, hpow]
  split
  · omega
  · omega

namespace Layout

/-! ## Entries -/

/-- How many entries a product can announce. -/
def entryLimit : Nat := Nat.pow 2 31

section Counted

variable {β : Type} {take : Bytes → Option (β × Bytes)} {write : β → Bytes}

/-- A number of entries and then so many of them. -/
def takeCounted? (take : Bytes → Option (β × Bytes)) (bytes : Bytes) :
    Option (List β × Bytes) := do
  let (announced, bytes) ← takeInteger? bytes
  if announced < 0 then none else takeMany? take announced.toInt.toNat bytes

/-- **Counted entries are read back**, as long as their number can be announced. -/
theorem takeCounted?_flatMap {vs : List β} (hfew : vs.length < entryLimit)
    (h : ∀ v rest, take (write v ++ rest) = some (v, rest)) (rest : Bytes) :
    takeCounted? take (count vs.length ++ vs.flatMap write ++ rest) = some (vs, rest) := by
  -- The number is small enough to be announced as itself, and not as a negative one.
  have hannounced : (Int32.ofNat vs.length).toInt = vs.length := Int32.toInt_ofNat_of_lt hfew
  have hnonneg : ¬ Int32.ofNat vs.length < 0 := by
    rw [Int32.lt_iff_toInt_lt, hannounced]
    exact Int.not_lt.mpr (Int.natCast_nonneg _)
  unfold takeCounted?
  rw [List.append_assoc, takeInteger?_count]
  simp only [Option.bind_eq_bind, Option.bind_some, if_neg hnonneg, hannounced, Int.toNat_natCast]
  exact takeMany?_flatMap (fun v _ => h v) rest

end Counted

/-! ## Products -/

/-- What a client can do with one kind of product, which `write` writes and `take?` reads: it finds
the product in front of whatever follows it. The product takes up `head` bytes and `each` more for
every entry, and no other has the same bytes. -/
structure Readable {β : Type} (write : β → Bytes) (take? : Bytes → Option (β × Bytes))
    (entries : β → Nat) (head each : Nat) : Prop where
  read : ∀ p, entries p < entryLimit → ∀ rest, take? (write p ++ rest) = some (p, rest)
  length : ∀ p, (write p).length = head + each * entries p
  unique : ∀ p q, entries p < entryLimit → entries q < entryLimit → write p = write q → p = q

/-- What is read back determines what was written. -/
theorem readable_of_read {β : Type} {write : β → Bytes} {take? : Bytes → Option (β × Bytes)}
    {entries : β → Nat} {head each : Nat}
    (read : ∀ p, entries p < entryLimit → ∀ rest, take? (write p ++ rest) = some (p, rest))
    (length : ∀ p, (write p).length = head + each * entries p) :
    Readable write take? entries head each where
  read := read
  length := length
  unique := by
    intro p q hp hq hbytes
    -- The same bytes are read as the one and as the other.
    have hread := read p hp []
    rw [hbytes, read q hq []] at hread
    cases hread
    rfl

/-- Start, rate and the samples of a wave. -/
def takeWave? (bytes : Bytes) : Option (Segment Time × Bytes) := do
  let (start, bytes) ← takeNumber? bytes
  let (rate, bytes) ← takeNumber? bytes
  let (samples, bytes) ← takeCounted? takeInteger? bytes
  return (⟨start, rate, samples⟩, bytes)

/-- Time, least and greatest of a row. -/
def takeHelicorderRow? (bytes : Bytes) : Option (HelicorderRow Time × Bytes) := do
  let (time, bytes) ← takeNumber? bytes
  let (least, bytes) ← takeNumber? bytes
  let (greatest, bytes) ← takeNumber? bytes
  return (⟨time, least, greatest⟩, bytes)

/-- Time and value of a row. -/
def takeRsamRow? (bytes : Bytes) : Option (RsamRow Time × Bytes) := do
  let (time, bytes) ← takeNumber? bytes
  let (value, bytes) ← takeNumber? bytes
  return (⟨time, value⟩, bytes)

/-- A wave: two numbers, and then its samples. -/
theorem readable_wave : Readable wave takeWave? Segment.length 20 4 := by
  refine readable_of_read (fun s hfew rest => ?_) fun s => ?_
  · have hsamples := takeCounted?_flatMap hfew takeInteger?_integer rest
    rw [List.append_assoc] at hsamples
    unfold wave takeWave? Segment.length
    simp only [List.append_assoc, takeNumber?_number, hsamples, Option.bind_eq_bind,
      Option.bind_some]
    rfl
  · unfold wave
    rw [List.length_append, List.length_append, List.length_append, length_number, length_number,
      length_count, length_flatMap_of_length length_integer]
    rfl

/-- A product that is a number of rows, each of which is read back. -/
theorem readable_counted {β : Type} {write : β → Bytes} {take : Bytes → Option (β × Bytes)}
    {each : Nat} (read : ∀ r rest, take (write r ++ rest) = some (r, rest))
    (length : ∀ r, (write r).length = each) :
    Readable (fun rows : List β => count rows.length ++ rows.flatMap write) (takeCounted? take)
      List.length 4 each := by
  refine readable_of_read (fun rows hfew => takeCounted?_flatMap hfew read) fun rows => ?_
  rw [List.length_append, length_count, length_flatMap_of_length length]

/-- A helicorder: rows of three numbers. -/
theorem readable_helicorder :
    Readable helicorder (takeCounted? takeHelicorderRow?) List.length 4 24 := by
  refine readable_counted (fun r rest => ?_) fun r => ?_
  · unfold takeHelicorderRow?
    simp only [List.append_assoc, takeNumber?_number, Option.bind_eq_bind, Option.bind_some]
    rfl
  · rw [List.length_append, List.length_append, length_number, length_number, length_number]

/-- An amplitude series: rows of two numbers. -/
theorem readable_rsam : Readable rsam (takeCounted? takeRsamRow?) List.length 4 16 := by
  refine readable_counted (fun r rest => ?_) fun r => ?_
  · unfold takeRsamRow?
    simp only [List.append_assoc, takeNumber?_number, Option.bind_eq_bind, Option.bind_some]
    rfl
  · rw [List.length_append, length_number, length_number]

/-- **Binary products are read back.** Whatever numbers and samples there are in a wave, a helicorder
or an amplitude series of fewer than 2³¹ entries, its bytes are as many as the layout says, a client
gets it back from them with nothing left over, and no other product of its kind has the same bytes.
Numbers are the same to the last bit. -/
theorem products_readable :
    Readable wave takeWave? Segment.length 20 4 ∧
    Readable helicorder (takeCounted? takeHelicorderRow?) List.length 4 24 ∧
    Readable rsam (takeCounted? takeRsamRow?) List.length 4 16 ∧
    (∀ x : Binary64, .ofBits x.toBits = x) ∧ ∀ bits : UInt64, (Binary64.ofBits bits).toBits = bits :=
  ⟨readable_wave, readable_helicorder, readable_rsam, Binary64.ofBits_toBits,
    Binary64.toBits_ofBits⟩

end Layout

end Seismic
