import EncryptedColumns.Bytes

/-!
# Texts as UTF-8

The bytes of a text are the bytes of its characters, one after the other. An
ASCII character is a byte of its own, and no byte of another character can be
taken for one.
-/

namespace EncryptedColumns.Bytes

theorem ofString_ofList (cs : List Char) :
    ofString (String.ofList cs) = cs.flatMap String.utf8EncodeChar := by
  simp [ofString, List.utf8Encode]

theorem ofString_eq_flatMap (s : String) :
    ofString s = s.toList.flatMap String.utf8EncodeChar := by
  rw [← ofString_ofList, String.ofList_toList]

theorem utf8EncodeChar_ascii {c : Char} (h : c.toNat < 128) :
    String.utf8EncodeChar c = [c.toUInt8] := by
  have hc : c.val.toNat ≤ 127 := Nat.le_of_lt_succ h
  rw [String.utf8EncodeChar, if_pos hc, UInt8.ofNat_uInt32ToNat]
  rfl

theorem toNat_ofUInt8 (b : UInt8) : (Char.ofUInt8 b).toNat = b.toNat := by
  show b.toUInt32.toNat = b.toNat
  exact UInt8.toNat_toUInt32 b

theorem ofUInt8_toUInt8 {c : Char} (h : c.toNat < 128) : Char.ofUInt8 c.toUInt8 = c := by
  apply Char.toNat_inj.1
  have : c.toNat < 256 := Nat.lt_trans h (by decide)
  rw [toNat_ofUInt8, ← Char.toUInt8_val]
  simp [-Char.toUInt8_val, Nat.mod_eq_of_lt this]

theorem ofUInt8_ne {b : UInt8} {c : Char} (h : b.toNat ≠ c.toNat) : Char.ofUInt8 b ≠ c := by
  intro e
  exact h (by rw [← e, toNat_ofUInt8])

theorem ofString_ofList_ascii {cs : List Char} (h : ∀ c ∈ cs, c.toNat < 128) :
    ofString (String.ofList cs) = cs.map Char.toUInt8 := by
  rw [ofString_ofList]
  induction cs with
  | nil => rfl
  | cons c cs ih =>
    rw [List.flatMap_cons, utf8EncodeChar_ascii (h c (by simp)), ih fun d hd => h d (by simp [hd])]
    rfl

theorem le_toNat_of_mem_utf8EncodeChar {c : Char} {b : UInt8} (h : 128 ≤ c.toNat)
    (hb : b ∈ String.utf8EncodeChar c) : 128 ≤ b.toNat := by
  have hv : c.val.toNat < 1114112 := by
    have := c.valid
    simp only [UInt32.isValidChar, Nat.isValidChar] at this
    omega
  have hc : ¬c.val.toNat ≤ 127 := Nat.not_le_of_lt h
  rw [String.utf8EncodeChar, if_neg hc] at hb
  split at hb
  · simp only [List.mem_cons, List.not_mem_nil, or_false] at hb
    rcases hb with rfl | rfl <;> rw [UInt8.toNat_ofNat'] <;> omega
  · split at hb
    · simp only [List.mem_cons, List.not_mem_nil, or_false] at hb
      rcases hb with rfl | rfl | rfl <;> rw [UInt8.toNat_ofNat'] <;> omega
    · simp only [List.mem_cons, List.not_mem_nil, or_false] at hb
      rcases hb with rfl | rfl | rfl | rfl <;> rw [UInt8.toNat_ofNat'] <;> omega

end EncryptedColumns.Bytes
