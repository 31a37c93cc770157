import ImportBlock.Text.Utf8

namespace ImportBlock.Text

namespace Utf8

theorem toNat_byte {n : Nat} (fits : n < 256) : (UInt8.ofNat n).toNat = n :=
  UInt8.toNat_ofNat_of_lt' fits

theorem isTail_byte (n : Nat) : isTail (UInt8.ofNat (n % 64 + 128)) = true := by
  simp only [isTail, Bool.and_eq_true, decide_eq_true_eq, UInt8.le_iff_toNat_le,
    toNat_byte (show n % 64 + 128 < 256 by omega), UInt8.reduceToNat]
  omega

theorem tailBits_byte (n : Nat) : tailBits (UInt8.ofNat (n % 64 + 128)) = n % 64 := by
  rw [tailBits, toNat_byte (by omega)]
  omega

theorem byte_lt_iff {n : Nat} (fits : n < 256) : UInt8.ofNat n < 0x80 ↔ n < 0x80 := by
  simp only [UInt8.lt_iff_toNat_lt, toNat_byte fits, UInt8.reduceToNat]

theorem byte_eq_iff {n m : Nat} (hn : n < 256) (hm : m < 256) :
    (UInt8.ofNat n == UInt8.ofNat m) = (n == m) := by
  rw [Bool.eq_iff_iff, beq_iff_eq, beq_iff_eq, ← UInt8.toNat_inj, toNat_byte hn, toNat_byte hm]

theorem leadsTwo_byte {n : Nat} (fits : n < 256) :
    leadsTwo (UInt8.ofNat n) = decide (0xC2 ≤ n ∧ n ≤ 0xDF) := by
  simp only [leadsTwo, UInt8.le_iff_toNat_le, toNat_byte fits, UInt8.reduceToNat, Bool.decide_and]

/-- Neither a shorter form nor a surrogate. -/
theorem leadThree_bytes {v : Nat} (low : 0x800 ≤ v) (high : v < 0x10000)
    (plain : v < 0xD800 ∨ 0xDFFF < v) :
    leadThree (UInt8.ofNat (v / 4096 % 16 + 224)) (UInt8.ofNat (v / 64 % 64 + 128)) = true := by
  have hfirst : ∀ m, m < 256 → (UInt8.ofNat (v / 4096 % 16 + 224) == UInt8.ofNat m) =
      (v / 4096 % 16 + 224 == m) := fun m hm => byte_eq_iff (by omega) hm
  rw [leadThree, show (0xE0 : UInt8) = UInt8.ofNat 0xE0 from rfl,
    show (0xED : UInt8) = UInt8.ofNat 0xED from rfl, hfirst _ (by omega), hfirst _ (by omega)]
  simp only [isTail_byte, UInt8.le_iff_toNat_le, UInt8.reduceToNat, beq_iff_eq,
    toNat_byte (show v / 4096 % 16 + 224 < 256 by omega),
    toNat_byte (show v / 64 % 64 + 128 < 256 by omega), Bool.and_true]
  split
  · simp only [Bool.and_eq_true, decide_eq_true_eq]
    omega
  split <;>
  · simp only [Bool.and_eq_true, decide_eq_true_eq]
    omega

theorem leadThree_eq_false {n : Nat} (low : 0xF0 ≤ n) (high : n < 256) (b : UInt8) :
    leadThree (UInt8.ofNat n) b = false := by
  have hfirst : ∀ m, m < 0xF0 → (UInt8.ofNat n == UInt8.ofNat m) = false := fun m hm => by
    rw [byte_eq_iff high (by omega), beq_eq_false_iff_ne]
    omega
  rw [leadThree, show (0xE0 : UInt8) = UInt8.ofNat 0xE0 from rfl,
    show (0xED : UInt8) = UInt8.ofNat 0xED from rfl, hfirst _ (by omega), hfirst _ (by omega)]
  simp only [UInt8.le_iff_toNat_le, toNat_byte high, UInt8.reduceToNat, Bool.false_eq_true,
    if_false, Bool.and_eq_false_iff, decide_eq_false_iff_not]
  omega

/-- Neither a shorter form nor beyond the last code point. -/
theorem leadFour_bytes {v : Nat} (low : 0x10000 ≤ v) (high : v < 0x110000) :
    leadFour (UInt8.ofNat (v / 262144 % 8 + 240)) (UInt8.ofNat (v / 4096 % 64 + 128)) = true := by
  have hfirst : ∀ m, m < 256 → (UInt8.ofNat (v / 262144 % 8 + 240) == UInt8.ofNat m) =
      (v / 262144 % 8 + 240 == m) := fun m hm => byte_eq_iff (by omega) hm
  rw [leadFour, show (0xF0 : UInt8) = UInt8.ofNat 0xF0 from rfl,
    show (0xF4 : UInt8) = UInt8.ofNat 0xF4 from rfl, hfirst _ (by omega), hfirst _ (by omega)]
  simp only [isTail_byte, UInt8.le_iff_toNat_le, UInt8.reduceToNat, beq_iff_eq,
    toNat_byte (show v / 262144 % 8 + 240 < 256 by omega),
    toNat_byte (show v / 4096 % 64 + 128 < 256 by omega), Bool.and_true]
  split
  · simp only [Bool.and_eq_true, decide_eq_true_eq]
    omega
  split <;>
  · simp only [Bool.and_eq_true, decide_eq_true_eq]
    omega

theorem two_bytes {v : Nat} (high : v < 0x800) :
    two (UInt8.ofNat (v / 64 % 32 + 192)) (UInt8.ofNat (v % 64 + 128)) = Char.ofNat v := by
  rw [two, tailBits_byte, toNat_byte (by omega)]
  congr 1
  omega

theorem three_bytes {v : Nat} (high : v < 0x10000) :
    three (UInt8.ofNat (v / 4096 % 16 + 224)) (UInt8.ofNat (v / 64 % 64 + 128))
      (UInt8.ofNat (v % 64 + 128)) = Char.ofNat v := by
  rw [three, tailBits_byte, tailBits_byte, toNat_byte (by omega)]
  congr 1
  omega

theorem four_bytes {v : Nat} (high : v < 0x110000) :
    four (UInt8.ofNat (v / 262144 % 8 + 240)) (UInt8.ofNat (v / 4096 % 64 + 128))
      (UInt8.ofNat (v / 64 % 64 + 128)) (UInt8.ofNat (v % 64 + 128)) = Char.ofNat v := by
  rw [four, tailBits_byte, tailBits_byte, tailBits_byte, toNat_byte (by omega)]
  congr 1
  omega

end Utf8

open Utf8

theorem decodePart_one {a : UInt8} (bytes : List UInt8) (single : a < 0x80) :
    decodePart (a :: bytes) =
      (Char.ofNat a.toNat :: (decodePart bytes).1, (decodePart bytes).2) := by
  rw [decodePart.eq_def]
  simp only [if_pos single]

theorem decodePart_two {a b : UInt8} (bytes : List UInt8) (several : ¬ a < 0x80)
    (leads : (leadsTwo a && isTail b) = true) :
    decodePart (a :: b :: bytes) = (two a b :: (decodePart bytes).1, (decodePart bytes).2) := by
  rw [decodePart.eq_def]
  simp only [if_neg several, if_pos leads]

theorem decodePart_three {a b c : UInt8} (bytes : List UInt8) (several : ¬ a < 0x80)
    (more : ¬ (leadsTwo a && isTail b) = true) (leads : (leadThree a b && isTail c) = true) :
    decodePart (a :: b :: c :: bytes) =
      (three a b c :: (decodePart bytes).1, (decodePart bytes).2) := by
  rw [decodePart.eq_def]
  simp only [if_neg several, if_neg more, if_pos leads]

theorem decodePart_four {a b c d : UInt8} (bytes : List UInt8) (several : ¬ a < 0x80)
    (more : ¬ (leadsTwo a && isTail b) = true) (most : ¬ (leadThree a b && isTail c) = true)
    (leads : (leadFour a b && isTail c && isTail d) = true) :
    decodePart (a :: b :: c :: d :: bytes) =
      (four a b c d :: (decodePart bytes).1, (decodePart bytes).2) := by
  rw [decodePart.eq_def]
  simp only [if_neg several, if_neg more, if_neg most, if_pos leads]

theorem decodePart_encodeChar (c : Char) (bytes : List UInt8) :
    decodePart (String.utf8EncodeChar c ++ bytes) =
      (c :: (decodePart bytes).1, (decodePart bytes).2) := by
  have hchar : Char.ofNat c.val.toNat = c := Char.ofNat_toNat c
  have hvalid : c.val.toNat < 0xD800 ∨ 0xDFFF < c.val.toNat ∧ c.val.toNat < 0x110000 := c.valid
  generalize hv : c.val.toNat = v at hchar hvalid
  have hbig : ∀ n, 128 ≤ n → n < 256 → ¬ UInt8.ofNat n < 0x80 := fun n low high => by
    rw [byte_lt_iff high]
    omega
  have hlong : ∀ n b, 0xE0 ≤ n → n < 256 → ¬ (leadsTwo (UInt8.ofNat n) && isTail b) = true :=
    fun n b low high => by
      rw [leadsTwo_byte high, Bool.and_eq_true, decide_eq_true_eq]
      omega
  rw [String.utf8EncodeChar, hv]
  split
  · rw [List.singleton_append, decodePart_one _ ((byte_lt_iff (by omega)).mpr (by omega)),
      toNat_byte (by omega), hchar]
  split
  · have leads : (leadsTwo (UInt8.ofNat (v / 64 % 32 + 192)) &&
        isTail (UInt8.ofNat (v % 64 + 128))) = true := by
      rw [isTail_byte, leadsTwo_byte (by omega), Bool.and_true, decide_eq_true_eq]
      omega
    rw [← hchar, ← two_bytes (by omega)]
    exact decodePart_two bytes (hbig _ (by omega) (by omega)) leads
  split
  · have leads := leadThree_bytes (v := v) (by omega) (by omega) (by omega)
    rw [← hchar, ← three_bytes (by omega)]
    exact decodePart_three bytes (hbig _ (by omega) (by omega)) (hlong _ _ (by omega) (by omega))
      (by rw [leads, isTail_byte, Bool.and_true])
  · have leads := leadFour_bytes (v := v) (by omega) (by omega)
    rw [← hchar, ← four_bytes (by omega)]
    exact decodePart_four bytes (hbig _ (by omega) (by omega)) (hlong _ _ (by omega) (by omega))
      (by rw [leadThree_eq_false (by omega) (by omega)]; exact Bool.false_ne_true)
      (by rw [leads, isTail_byte, isTail_byte]; rfl)

theorem decodePart_encode (text : Text) : decodePart (encode text) = (text, []) := by
  induction text with
  | nil => rfl
  | cons c text ih =>
    rw [encode, List.flatMap_cons, decodePart_encodeChar]
    rw [encode] at ih
    rw [ih]

theorem decode_encode (text : Text) : decode (encode text) = .ok text := by
  rw [decode, decodePart_encode]
  rfl

end ImportBlock.Text
