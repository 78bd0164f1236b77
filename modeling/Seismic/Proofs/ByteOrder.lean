import Mathlib.Data.List.Lex
import Seismic.Proofs.Delimited

/-!
# ByteOrder — texts in order are in order as bytes

Texts are compared character by character. Sent as UTF-8 they can be compared byte by byte with the
same result: a smaller character begins with a smaller byte or, with as many bytes, has a smaller
byte where the two first differ.

* **`Utf8.utf8EncodeChar_append_lt`**: the order of two characters shows in their bytes;
* **`Utf8.encode_le_encode`**: the order of two texts does.
-/

namespace Seismic.Utf8

theorem cons_ofNat_lt {m n : Nat} (hn : n < 256) (h : m < n) (x y : List UInt8) :
    UInt8.ofNat m :: x < UInt8.ofNat n :: y := by
  refine List.cons_lt_cons_iff.mpr (.inl ?_)
  rw [UInt8.lt_iff_toNat_lt, toNat_ofNat_of_lt (by omega), toNat_ofNat_of_lt hn]
  exact h

/-- Of two numbers below a bound the smaller one comes first as bytes, whatever follows. -/
def Ascends (bound : Nat) (bytes : Nat → List UInt8) : Prop :=
  ∀ ⦃m n : Nat⦄, m < n → n < bound → ∀ x y, bytes m ++ x < bytes n ++ y

theorem ascends_lead {bound mark : Nat} (h : bound + mark ≤ 256) :
    Ascends bound fun n => [UInt8.ofNat (n % bound + mark)] := by
  intro m n hlt hn x y
  have hm := Nat.mod_eq_of_lt (hlt.trans hn)
  have hn := Nat.mod_eq_of_lt hn
  exact cons_ofNat_lt (by omega) (by omega) x y

/-- The six bits of a further byte decide where all bits before them agree. -/
theorem Ascends.more {bound : Nat} {bytes : Nat → List UInt8} (h : Ascends bound bytes) :
    Ascends (bound * 64) fun n => bytes (n / 64) ++ [UInt8.ofNat (n % 64 + 128)] := by
  intro m n hlt hn x y
  have hcases : m / 64 < n / 64 ∨ m / 64 = n / 64 ∧ m % 64 < n % 64 := by omega
  simp only [List.append_assoc, List.singleton_append]
  rcases hcases with hhigh | ⟨hhigh, hlow⟩
  · exact h hhigh (by omega) _ _
  · rw [hhigh]
    exact List.Lex.append_left _ (cons_ofNat_lt (by omega) (by omega) x y) _

theorem ascends_two :
    Ascends 2048 fun n => [UInt8.ofNat (n / 64 % 32 + 192), UInt8.ofNat (n % 64 + 128)] :=
  have hlead : Ascends 32 fun n => [UInt8.ofNat (n % 32 + 192)] := ascends_lead (by decide)
  hlead.more

theorem ascends_three :
    Ascends 65536 fun n => [UInt8.ofNat (n / 4096 % 16 + 224), UInt8.ofNat (n / 64 % 64 + 128),
      UInt8.ofNat (n % 64 + 128)] := by
  have hlead : Ascends 16 fun n => [UInt8.ofNat (n % 16 + 224)] := ascends_lead (by decide)
  simpa only [Nat.div_div_eq_div_mul, Nat.reduceMul, List.singleton_append, List.cons_append,
    List.nil_append] using hlead.more.more

theorem ascends_four :
    Ascends 2097152 fun n => [UInt8.ofNat (n / 262144 % 8 + 240),
      UInt8.ofNat (n / 4096 % 64 + 128), UInt8.ofNat (n / 64 % 64 + 128),
      UInt8.ofNat (n % 64 + 128)] := by
  have hlead : Ascends 8 fun n => [UInt8.ofNat (n % 8 + 240)] := ascends_lead (by decide)
  simpa only [Nat.div_div_eq_div_mul, Nat.reduceMul, List.singleton_append, List.cons_append,
    List.nil_append] using hlead.more.more.more

/-- Of two characters the one with the smaller code comes first as bytes too, whatever follows. -/
theorem utf8EncodeChar_append_lt {c d : Char} (h : c < d) (x y : List UInt8) :
    String.utf8EncodeChar c ++ x < String.utf8EncodeChar d ++ y := by
  have hlt : c.val.toNat < d.val.toNat := h
  have hvalid : d.val.toNat < 0x110000 := by
    rcases d.valid with hd | hd
    · exact Nat.lt_trans hd (by omega)
    · exact hd.2
  unfold String.utf8EncodeChar
  simp only
  generalize c.val.toNat = m at hlt ⊢
  generalize d.val.toNat = n at hlt hvalid ⊢
  -- The leading byte grows with the number of bytes, so only codes of one length need more than it.
  split
  · split
    · exact cons_ofNat_lt (by omega) hlt x y
    split <;> try split
    all_goals exact cons_ofNat_lt (by omega) (by omega) _ _
  split
  · rw [if_neg (by omega)]
    split
    · exact ascends_two hlt (by omega) x y
    split
    all_goals exact cons_ofNat_lt (by omega) (by omega) _ _
  split
  · rw [if_neg (by omega), if_neg (by omega)]
    split
    · exact ascends_three hlt (by omega) x y
    · exact cons_ofNat_lt (by omega) (by omega) _ _
  · rw [if_neg (by omega), if_neg (by omega), if_neg (by omega)]
    exact ascends_four hlt (by omega) x y

theorem encode_lt_encode {a b : String} (h : a < b) : encode a < encode b := by
  have hlex : List.Lex (· < ·) a.toList b.toList := h
  unfold encode
  generalize a.toList = x at hlex ⊢
  generalize b.toList = y at hlex ⊢
  induction hlex with
  | @nil c rest =>
    obtain ⟨b, bytes, hbytes⟩ := List.exists_cons_of_ne_nil (String.utf8EncodeChar_ne_nil (c := c))
    rw [List.flatMap_nil, List.flatMap_cons, hbytes]
    exact List.Lex.nil
  | rel h => exact utf8EncodeChar_append_lt h _ _
  | cons _ ih => exact List.Lex.append_left _ ih _
/-- **Texts in order are in order as bytes.** -/
theorem encode_le_encode {a b : String} (h : a ≤ b) : encode a ≤ encode b := by
  by_cases heq : a = b
  · rw [heq]
    exact List.le_refl _
  · have hlt : a < b := by
      by_contra hlt
      exact heq (String.le_antisymm h hlt)
    exact List.le_of_lt (encode_lt_encode hlt)

end Seismic.Utf8
