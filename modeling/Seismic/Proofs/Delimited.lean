import Seismic.Proofs.Decoded
import Seismic.Proofs.Framing

/-!
# Delimited — a stream of replies comes apart by itself

Replies are sent one after the other with nothing between them. A client that knows the shape of
each reply that it waits for still finds where every one of them ends: a line ends at its newline,
and after the header of a block or a binary reply come as many lines or bytes as the header's last
token says. The header may have spaces and digits of its own, and a payload may hold any bytes.

* **`Utf8.decode?_encode`**: a written text is read back, character by character;
* **`Reply.announced?_header`**: a count is found behind every header;
* **`Reply.take?_bytes`**: a reply is taken off the front of a stream, whatever follows it;
* **`takeAll?_flatMap_bytes`**: so a whole list of replies is.
-/

namespace Seismic

namespace Utf8

/-! ## Characters read back -/

theorem toNat_ofNat_of_lt {n : Nat} (h : n < 256) : (UInt8.ofNat n).toNat = n := by
  rw [UInt8.toNat_ofNat']
  exact Nat.mod_eq_of_lt h

/-- A byte below 128 is a character. -/
theorem parts_ascii {n : Nat} (h : n < 128) (rest : List UInt8) :
    parts .start (UInt8.ofNat n :: rest) = some (Char.ofNat n) :: parts .start rest := by
  have hbyte : (UInt8.ofNat n).toNat = n := toNat_ofNat_of_lt (by omega)
  have hascii : UInt8.ofNat n < 0x80 := by
    rw [UInt8.lt_iff_toNat_lt, hbyte]
    exact h
  rw [parts, lead, if_pos hascii, hbyte]
  rfl

/-- The leading byte of two. -/
theorem lead_two {n : Nat} (hlow : 2 ≤ n) (hhigh : n < 32) :
    lead (UInt8.ofNat (n + 192)) = ([], .within ⟨0x80, 0xBF, 0, n⟩) := by
  have hbyte : (UInt8.ofNat (n + 192)).toNat = n + 192 := toNat_ofNat_of_lt (by omega)
  have hbits : (n + 192) % 32 = n := by omega
  simp only [lead, UInt8.lt_iff_toNat_lt, hbyte, hbits, UInt8.reduceToNat]
  rw [if_neg (by omega), if_neg (by omega), if_pos (by omega)]

/-- The leading byte of three, which may narrow the range of the second. -/
theorem lead_three {n : Nat} (h : n < 16) :
    lead (UInt8.ofNat (n + 224)) =
      ([], .within ⟨if n = 0 then 0xA0 else 0x80, if n = 13 then 0x9F else 0xBF, 1, n⟩) := by
  have hbyte : (UInt8.ofNat (n + 224)).toNat = n + 224 := toNat_ofNat_of_lt (by omega)
  have hbits : (n + 224) % 16 = n := by omega
  have hfirst : n + 224 = 224 ↔ n = 0 := by omega
  have hlast : n + 224 = 237 ↔ n = 13 := by omega
  simp only [lead, UInt8.lt_iff_toNat_lt, ← UInt8.toNat_inj, hbyte, hbits, UInt8.reduceToNat,
    hfirst, hlast]
  rw [if_neg (by omega), if_neg (by omega), if_neg (by omega), if_pos (by omega)]

/-- The leading byte of four, which may do so too. -/
theorem lead_four {n : Nat} (h : n ≤ 4) :
    lead (UInt8.ofNat (n + 240)) =
      ([], .within ⟨if n = 0 then 0x90 else 0x80, if n = 4 then 0x8F else 0xBF, 2, n⟩) := by
  have hbyte : (UInt8.ofNat (n + 240)).toNat = n + 240 := toNat_ofNat_of_lt (by omega)
  have hbits : (n + 240) % 8 = n := by omega
  have hfirst : n + 240 = 240 ↔ n = 0 := by omega
  have hlast : n + 240 = 244 ↔ n = 4 := by omega
  simp only [lead, UInt8.lt_iff_toNat_lt, ← UInt8.toNat_inj, hbyte, hbits, UInt8.reduceToNat,
    hfirst, hlast]
  rw [if_neg (by omega), if_neg (by omega), if_neg (by omega), if_neg (by omega),
    if_pos (by omega)]

section Within

variable {low high : UInt8} {more bits n : Nat} (hn : n < 64) (hlow : low.toNat ≤ n + 128)
  (hhigh : n + 128 ≤ high.toNat)

include hn hlow hhigh

/-- A continuation byte that the machine admits is in its range, and holds six bits. -/
theorem continuation_in_range :
    (low ≤ UInt8.ofNat (n + 128) && UInt8.ofNat (n + 128) ≤ high) = true ∧
      (UInt8.ofNat (n + 128)).toNat % 64 = n := by
  have hbyte : (UInt8.ofNat (n + 128)).toNat = n + 128 := toNat_ofNat_of_lt (by omega)
  constructor
  · simp only [UInt8.le_iff_toNat_le, hbyte, hlow, hhigh, decide_true, Bool.and_self]
  · omega

/-- The last continuation byte completes the character. -/
theorem parts_within_last (rest : List UInt8) :
    parts (.within ⟨low, high, 0, bits⟩) (UInt8.ofNat (n + 128) :: rest) =
      some (Char.ofNat (bits * 64 + n)) :: parts .start rest := by
  obtain ⟨hrange, hbits⟩ := continuation_in_range hn hlow hhigh
  rw [parts, if_pos hrange, hbits]

/-- Any other one adds six bits to it. -/
theorem parts_within_more (rest : List UInt8) :
    parts (.within ⟨low, high, more + 1, bits⟩) (UInt8.ofNat (n + 128) :: rest) =
      parts (.within ⟨0x80, 0xBF, more, bits * 64 + n⟩) rest := by
  obtain ⟨hrange, hbits⟩ := continuation_in_range hn hlow hhigh
  rw [parts, if_pos hrange, hbits]

end Within

/-- The range of a byte that nothing narrows. -/
theorem in_wide_range {n : Nat} (h : n < 64) :
    (0x80 : UInt8).toNat ≤ n + 128 ∧ n + 128 ≤ (0xBF : UInt8).toNat := by
  have hlow : (0x80 : UInt8).toNat = 128 := rfl
  have hhigh : (0xBF : UInt8).toNat = 191 := rfl
  omega

/-- The range after `E0` leaves out what two bytes can hold, and the range after `ED` the
surrogates. -/
theorem in_range_of_three {n : Nat} (hlong : 2047 < n) (hshort : n ≤ 65535)
    (hvalid : n < 0xD800 ∨ 0xDFFF < n) :
    (if n / 4096 % 16 = 0 then 0xA0 else 0x80 : UInt8).toNat ≤ n / 64 % 64 + 128 ∧
      n / 64 % 64 + 128 ≤ (if n / 4096 % 16 = 13 then 0x9F else 0xBF : UInt8).toNat := by
  have hwide := in_wide_range (show n / 64 % 64 < 64 by omega)
  constructor
  · split
    · show 0xA0 ≤ n / 64 % 64 + 128
      omega
    · exact hwide.1
  · split
    · show n / 64 % 64 + 128 ≤ 0x9F
      omega
    · exact hwide.2

/-- The range after `F0` leaves out what three bytes can hold, and the range after `F4` what is no
character. -/
theorem in_range_of_four {n : Nat} (hlong : 65535 < n) (hvalid : n < 0x110000) :
    (if n / 262144 % 8 = 0 then 0x90 else 0x80 : UInt8).toNat ≤ n / 4096 % 64 + 128 ∧
      n / 4096 % 64 + 128 ≤ (if n / 262144 % 8 = 4 then 0x8F else 0xBF : UInt8).toNat := by
  have hwide := in_wide_range (show n / 4096 % 64 < 64 by omega)
  constructor
  · split
    · show 0x90 ≤ n / 4096 % 64 + 128
      omega
    · exact hwide.1
  · split
    · show n / 4096 % 64 + 128 ≤ 0x8F
      omega
    · exact hwide.2

/-- **A written character is read back**, whatever follows it. -/
theorem parts_utf8EncodeChar (c : Char) (rest : List UInt8) :
    parts .start (String.utf8EncodeChar c ++ rest) = some c :: parts .start rest := by
  have hvalid : c.val.toNat < 0xD800 ∨ 0xDFFF < c.val.toNat ∧ c.val.toNat < 0x110000 := c.valid
  have hchar : Char.ofNat c.val.toNat = c := Char.ofNat_toNat c
  unfold String.utf8EncodeChar
  simp only
  generalize c.val.toNat = n at hvalid hchar
  have hlast := in_wide_range (show n % 64 < 64 by omega)
  have hthird := in_wide_range (show n / 64 % 64 < 64 by omega)
  -- By the number of bytes. Each time the bits that were cut apart make up the number of the
  -- character again, and every byte is in the range that the machine allows after the ones before
  -- it.
  split
  · rw [List.singleton_append, parts_ascii (by omega), hchar]
  split
  · have hlead : lead (UInt8.ofNat (n / 64 % 32 + 192)) =
        ([], .within ⟨0x80, 0xBF, 0, n / 64 % 32⟩) := lead_two (by omega) (by omega)
    have hbits : n / 64 % 32 * 64 + n % 64 = n := by omega
    rw [List.cons_append, List.singleton_append, parts, hlead, List.nil_append,
      parts_within_last (by omega) hlast.1 hlast.2, hbits, hchar]
  split
  · have hsecond := in_range_of_three (n := n) (by omega) (by omega) (by omega)
    have hbits : (n / 4096 % 16 * 64 + n / 64 % 64) * 64 + n % 64 = n := by omega
    rw [List.cons_append, List.cons_append, List.singleton_append, parts, lead_three (by omega),
      List.nil_append, parts_within_more (by omega) hsecond.1 hsecond.2,
      parts_within_last (by omega) hlast.1 hlast.2, hbits, hchar]
  · have hsecond := in_range_of_four (n := n) (by omega) (by omega)
    have hbits : ((n / 262144 % 8 * 64 + n / 4096 % 64) * 64 + n / 64 % 64) * 64 + n % 64 = n := by
      omega
    rw [List.cons_append, List.cons_append, List.cons_append, List.singleton_append, parts,
      lead_four (by omega), List.nil_append, parts_within_more (by omega) hsecond.1 hsecond.2,
      parts_within_more (by omega) hthird.1 hthird.2,
      parts_within_last (by omega) hlast.1 hlast.2, hbits, hchar]

/-- **A written text is read back.** -/
theorem decode?_encode (text : String) : decode? (encode text) = some text := by
  have hparts (chars : List Char) :
      parts .start (chars.flatMap String.utf8EncodeChar) = chars.map some := by
    induction chars with
    | nil => rfl
    | cons c rest ih => rw [List.flatMap_cons, parts_utf8EncodeChar, ih, List.map_cons]
  have hall : (text.toList.map some).all Option.isSome = true := by simp
  have hchars : (text.toList.map some).filterMap id = text.toList := by simp
  unfold decode? encode
  rw [hparts]
  simp only [hall, hchars, if_true, String.ofList_toList]

end Utf8

namespace Reply

/-! ## Lines and header lines -/

/-- The text of the first line, and the bytes after its newline. -/
def takeLine? (bytes : Bytes) : Option (String × Bytes) :=
  let body := Line.body bytes
  if body.length < bytes.length then
    (Utf8.decode? body).map fun text => (text, bytes.drop (body.length + 1))
  else none

/-- **A line is taken off the front of a stream.** -/
theorem takeLine?_lineBytes {text : String} (h : OneLine text) (rest : Bytes) :
    takeLine? (lineBytes text ++ rest) = some (text, rest) := by
  have hbytes : lineBytes text ++ rest = Utf8.encode text ++ 10 :: rest := by
    rw [lineBytes, List.append_assoc]
    rfl
  have hbody : Line.body (Utf8.encode text ++ 10 :: rest) = Utf8.encode text :=
    Line.body_append_eq (newline_not_mem_encode h) rest
  have hlength : (Utf8.encode text).length < (Utf8.encode text ++ 10 :: rest).length := by
    rw [List.length_append, List.length_cons]
    omega
  have hdrop : (Utf8.encode text ++ 10 :: rest).drop ((Utf8.encode text).length + 1) = rest := by
    rw [List.drop_append]
    simp
  unfold takeLine?
  simp only [hbytes, hbody, if_pos hlength, Utf8.decode?_encode, Option.map_some, hdrop]

/-- The header in a header line and the count after it: the last token, read as a number, and the
tokens before it. -/
def announced? (line : String) : Option (String × Nat) :=
  let tokens := Text.fields ' ' line
  (tokens.getLast?.bind fun token => Numeral.nat? token.toList).map fun count =>
    (Text.join ' ' tokens.dropLast, count)

/-- **A count is found behind every header**, whatever tokens the header itself has. -/
theorem announced?_header (header : String) (count : Nat) :
    announced? (header ++ " " ++ Numeral.ofNat count) = some (header, count) := by
  have hcount : ' ' ∉ Numeral.digits count := by
    have hlacks : Lacks ' ' (Numeral.ofNat count) := Lacks.ofNat (by decide) count
    unfold Lacks Numeral.ofNat at hlacks
    rwa [String.toList_ofList] at hlacks
  -- The header may have spaces, so its tokens are not known; but the count is the last token.
  have htokens : Text.fields ' ' (header ++ " " ++ Numeral.ofNat count) =
      Text.fields ' ' header ++ [Numeral.ofNat count] := by
    have htext : (header ++ " " ++ Numeral.ofNat count).toList =
        header.toList ++ ' ' :: Numeral.digits count := by
      simp [Numeral.ofNat]
    unfold Text.fields
    rw [htext, List.splitOn_append_cons_self, List.splitOn_eq_singleton hcount, List.map_append]
    rfl
  have hheader : Text.join ' ' (Text.fields ' ' header) = header := by
    unfold Text.join Text.fields
    simp only [List.map_map, Function.comp_def, String.toList_ofList, List.map_id',
      List.intercalate_splitOn, String.ofList_toList]
  have hdigits : Numeral.nat? (Numeral.ofNat count).toList = some count := by
    rw [Numeral.ofNat, String.toList_ofList]
    exact Numeral.nat?_digits count
  unfold announced?
  simp only [htokens, List.getLast?_concat, List.dropLast_concat, Option.bind_some, hdigits,
    Option.map_some, hheader]

/-- A header line: the header, the count that it announces, and the bytes after it. -/
def takeHeader? (bytes : Bytes) : Option ((String × Nat) × Bytes) := do
  let (text, rest) ← takeLine? bytes
  let announced ← announced? text
  return (announced, rest)

/-- **A header line gives back header and count.** -/
theorem takeHeader?_headerBytes {header : String} (h : OneLine header) (count : Nat)
    (rest : Bytes) :
    takeHeader? (headerBytes header count ++ rest) = some ((header, count), rest) := by
  have hline : OneLine (header ++ " " ++ Numeral.ofNat count) := by
    rw [OneLine.append, OneLine.append]
    exact ⟨⟨h, by decide⟩, OneLine.ofNat count⟩
  unfold takeHeader? headerBytes
  simp only [takeLine?_lineBytes hline, announced?_header, Option.bind_eq_bind, Option.bind_some]
  rfl

/-! ## Replies -/

/-- The shape of a reply, which a client knows from what it asked. -/
inductive Shape where
  | line
  | block
  | binary
deriving DecidableEq, Repr

def shape : Reply → Shape
  | line _ => .line
  | block _ _ => .block
  | binary _ _ => .binary

/-- A reply as it arrives: its payload is the bytes that were sent. -/
def received [Compressor] : Reply → Reply
  | binary header payload => .binary header ⟨payload.bytes, false⟩
  | reply => reply

/-- The reply has no payload that is packed on its way out. -/
def Unpacked : Reply → Prop
  | binary _ payload => payload.compressed = false
  | _ => True

/-- A payload that is not packed arrives as it was. -/
theorem received_eq_self [Compressor] {r : Reply} (h : r.Unpacked) : r.received = r := by
  cases r with
  | line text => rfl
  | block header lines => rfl
  | binary header payload =>
    obtain ⟨raw, compressed⟩ := payload
    have hplain : compressed = false := h
    rw [hplain]
    rfl

/-- A reply of the given shape at the front of a stream, and what follows it. -/
def take? (shape : Shape) (stream : Bytes) : Option (Reply × Bytes) :=
  match shape with
  | .line => (takeLine? stream).map fun (text, rest) => (.line text, rest)
  | .block => do
    let ((header, count), stream) ← takeHeader? stream
    let (lines, rest) ← Layout.takeMany? takeLine? count stream
    return (.block header lines, rest)
  | .binary => do
    let ((header, count), stream) ← takeHeader? stream
    if count ≤ stream.length then
      return (.binary header ⟨stream.take count, false⟩, stream.drop count)
    else none

/-- **A reply is taken off the front of a stream**, whatever follows it. -/
theorem take?_bytes [Compressor] {r : Reply} (h : r.Framed) (rest : Bytes) :
    take? r.shape (r.bytes ++ rest) = some (r.received, rest) := by
  -- By the shape: up to a newline, as many lines as announced, or as many bytes.
  cases r with
  | line text =>
    have hline := takeLine?_lineBytes h rest
    unfold shape take? bytes
    simp only [hline, Option.map_some]
    rfl
  | block header lines =>
    obtain ⟨hheader, hlines⟩ := h
    have hcount := takeHeader?_headerBytes hheader lines.length (lines.flatMap lineBytes ++ rest)
    have hmany : Layout.takeMany? takeLine? lines.length (lines.flatMap lineBytes ++ rest) =
        some (lines, rest) :=
      Layout.takeMany?_flatMap (fun text htext => takeLine?_lineBytes (hlines text htext)) rest
    unfold shape take? bytes
    simp only [List.append_assoc, hcount, hmany, Option.bind_eq_bind, Option.bind_some]
    rfl
  | binary header payload =>
    have hcount := takeHeader?_headerBytes h payload.bytes.length (payload.bytes ++ rest)
    have hfits : payload.bytes.length ≤ (payload.bytes ++ rest).length := by
      rw [List.length_append]
      omega
    unfold shape take? bytes
    simp only [List.append_assoc, hcount, Option.bind_eq_bind, Option.bind_some, if_pos hfits,
      List.take_left, List.drop_left]
    rfl

/-! ## Streams -/

/-- Replies of the given shapes at the front of a stream, and what follows them. -/
def takeAll? : List Shape → Bytes → Option (List Reply × Bytes)
  | [], stream => some ([], stream)
  | shape :: shapes, stream => do
    let (reply, stream) ← take? shape stream
    let (replies, rest) ← takeAll? shapes stream
    return (reply :: replies, rest)

/-- **A stream of replies comes apart by itself.** The replies are taken off it one by one, down to
its last byte and not beyond it. Nothing is lost on the way but whether a payload was packed. -/
theorem takeAll?_flatMap_bytes [Compressor] {replies : List Reply}
    (h : ∀ r ∈ replies, r.Framed) (rest : Bytes) :
    takeAll? (replies.map shape) (replies.flatMap bytes ++ rest) =
        some (replies.map received, rest) ∧
      ((∀ r ∈ replies, r.Unpacked) → replies.map received = replies) := by
  constructor
  · induction replies with
    | nil => rfl
    | cons r others ih =>
      obtain ⟨hfirst, hothers⟩ := List.forall_mem_cons.mp h
      have htake := take?_bytes hfirst (others.flatMap bytes ++ rest)
      rw [List.map_cons, List.flatMap_cons, List.append_assoc, takeAll?, htake]
      simp only [Option.bind_eq_bind, Option.bind_some, ih hothers]
      rfl
  · intro hunpacked
    have hsame : replies.map received = replies.map id :=
      List.map_congr_left fun r hr => received_eq_self (hunpacked r hr)
    rw [hsame, List.map_id]

/-- A header with a count of its own, a payload with newlines in it, and empty lines. -/
def entangled : List Reply :=
  [.binary "9 2" ⟨[0, 10, 255, 10], false⟩, .line "", .block "7 1" ["a=1 4", "", "b 2"],
    .binary "é" ⟨[], false⟩, .line "9 FG s4"]

theorem takeAll?_entangled :
    (∀ r ∈ entangled, r.Framed) ∧
      takeAll? [.binary, .line, .block, .binary, .line] (entangled.flatMap bytes) =
        some (entangled, []) := by
  have hframed : ∀ r ∈ entangled, r.Framed := by decide
  have hunpacked : ∀ r ∈ entangled, r.Unpacked := by simp [entangled, Unpacked]
  obtain ⟨htake, hsame⟩ := takeAll?_flatMap_bytes hframed []
  rw [List.append_nil, hsame hunpacked] at htake
  exact ⟨hframed, htake⟩

end Reply

end Seismic
