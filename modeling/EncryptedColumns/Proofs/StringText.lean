import EncryptedColumns.Json.Printer
import EncryptedColumns.Json.StringLiteral
import EncryptedColumns.Proofs.Utf8

/-!
# Strings are read back

Every character of a string is written as itself or as an escape, and either way
the reader takes it in as that character. The closing quote is the first quote
that the reader meets outside an escape.
-/

namespace EncryptedColumns.Json

theorem escapeChar_cases (c : Char) :
    (∃ l, l.toNat < 128 ∧ l ≠ 'u' ∧ shortEscape l = some c ∧ escapeChar c = ['\\', l]) ∨
    (c.toNat < 0x20 ∧
      escapeChar c = ['\\', 'u', '0', '0', hexDigit (c.toNat / 16), hexDigit (c.toNat % 16)]) ∨
    (c ≠ '"' ∧ c ≠ '\\' ∧ 0x20 ≤ c.toNat ∧ escapeChar c = [c]) := by
  unfold escapeChar
  split
  · exact .inl ⟨'"', by decide, by decide, rfl, rfl⟩
  · exact .inl ⟨'\\', by decide, by decide, rfl, rfl⟩
  · exact .inl ⟨'b', by decide, by decide, rfl, rfl⟩
  · exact .inl ⟨'f', by decide, by decide, rfl, rfl⟩
  · exact .inl ⟨'n', by decide, by decide, rfl, rfl⟩
  · exact .inl ⟨'r', by decide, by decide, rfl, rfl⟩
  · exact .inl ⟨'t', by decide, by decide, rfl, rfl⟩
  · rename_i hq hb _ _ _ _ _
    by_cases h : c.toNat < 0x20
    · exact .inr (.inl ⟨h, if_pos h⟩)
    · exact .inr (.inr ⟨hq, hb, Nat.le_of_not_lt h, if_neg h⟩)

theorem hexDigit_ascii : ∀ n < 16, (hexDigit n).toNat < 128 := by decide

theorem hexDigit?_hexDigit : ∀ n < 16, hexDigit? (hexDigit n).toUInt8 = some n := by decide

theorem escape_short {l c : Char} (hl : l.toNat < 128) (hu : l ≠ 'u') (hs : shortEscape l = some c)
    (bs : Bytes) : escape (l.toUInt8 :: bs) = .ok (c, bs) := by
  simp only [escape, Bytes.ofUInt8_toUInt8 hl, if_neg hu, hs]

theorem escape_control {c : Char} (h : c.toNat < 0x20) (bs : Bytes) :
    escape ('u'.toUInt8 :: '0'.toUInt8 :: '0'.toUInt8 :: (hexDigit (c.toNat / 16)).toUInt8 ::
      (hexDigit (c.toNat % 16)).toUInt8 :: bs) = .ok (c, bs) := by
  have h₁ := hexDigit?_hexDigit (c.toNat / 16) (by omega)
  have h₂ := hexDigit?_hexDigit (c.toNat % 16) (by omega)
  have h₀ : hexDigit? '0'.toUInt8 = some 0 := by decide
  have hu : hexUnit ('0'.toUInt8 :: '0'.toUInt8 :: (hexDigit (c.toNat / 16)).toUInt8 ::
      (hexDigit (c.toNat % 16)).toUInt8 :: bs) = .ok (c.toNat, bs) := by
    simp only [hexUnit, h₀, h₁, h₂]
    congr 2
    omega
  have hlow : isLowSurrogate c.toNat = false := by simp [isLowSurrogate]; omega
  have hhigh : isHighSurrogate c.toNat = false := by simp [isHighSurrogate]; omega
  rw [escape, if_pos (Bytes.ofUInt8_toUInt8 (by decide)), hexEscape, hu]
  simp [bind, Except.bind, hlow, hhigh, pure, Except.pure]

def IsPlain (b : UInt8) : Prop :=
  Char.ofUInt8 b ≠ '"' ∧ Char.ofUInt8 b ≠ '\\' ∧ ¬b < 0x20

theorem content_plain {b : UInt8} (h : IsPlain b) (read bs : Bytes) :
    content read (b :: bs) = content (b :: read) bs := by
  obtain ⟨hq, hb, hc⟩ := h
  rw [content, if_neg hq, if_neg hb, if_neg hc]

theorem content_plains {cs : Bytes} (h : ∀ b ∈ cs, IsPlain b) (read bs : Bytes) :
    content read (cs ++ bs) = content (cs.reverse ++ read) bs := by
  induction cs generalizing read with
  | nil => rfl
  | cons b cs ih =>
    rw [List.cons_append, content_plain (h b (by simp)), ih fun d hd => h d (by simp [hd])]
    simp

theorem content_backslash {c : Char} {bs left : Bytes} (h : escape bs = .ok (c, left))
    (read : Bytes) : content read ('\\'.toUInt8 :: bs) =
      content ((String.utf8EncodeChar c).reverse ++ read) left := by
  rw [content, if_neg (by decide), if_pos (by decide)]
  split
  · rename_i he
    rw [h] at he
    cases he
    rfl
  · rename_i he
    rw [h] at he
    cases he

theorem content_quote {read : Bytes} {s : String} (h : read.reverse = Bytes.ofString s)
    (bs : Bytes) : content read ('"'.toUInt8 :: bs) = .ok (s, bs) := by
  rw [content, if_pos (by decide), h, Bytes.text?_ofString]

theorem isPlain_of_mem {c : Char} (hq : c ≠ '"') (hb : c ≠ '\\') (hc : 0x20 ≤ c.toNat) {b : UInt8}
    (h : b ∈ String.utf8EncodeChar c) : IsPlain b := by
  by_cases ha : c.toNat < 128
  · rw [Bytes.utf8EncodeChar_ascii ha, List.mem_singleton] at h
    have hn : b.toNat = c.toNat := by
      rw [← Bytes.toNat_ofUInt8, h, Bytes.ofUInt8_toUInt8 ha]
    refine ⟨?_, ?_, ?_⟩
    · rw [h, Bytes.ofUInt8_toUInt8 ha]; exact hq
    · rw [h, Bytes.ofUInt8_toUInt8 ha]; exact hb
    · rw [UInt8.lt_iff_toNat_lt, hn]; exact Nat.not_lt_of_le hc
  · have hn := Bytes.le_toNat_of_mem_utf8EncodeChar (Nat.le_of_not_lt ha) h
    refine ⟨Bytes.ofUInt8_ne ?_, Bytes.ofUInt8_ne ?_, ?_⟩
    · exact Nat.ne_of_gt (Nat.lt_of_lt_of_le (by decide) hn)
    · exact Nat.ne_of_gt (Nat.lt_of_lt_of_le (by decide) hn)
    · rw [UInt8.lt_iff_toNat_lt]
      exact Nat.not_lt_of_le (Nat.le_trans (by decide) hn)

theorem content_escapeChar (c : Char) (read bs : Bytes) :
    content read ((escapeChar c).flatMap String.utf8EncodeChar ++ bs) =
      content ((String.utf8EncodeChar c).reverse ++ read) bs := by
  rcases escapeChar_cases c with ⟨l, hl, hu, hs, he⟩ | ⟨hc, he⟩ | ⟨hq, hb, hc, he⟩
  · rw [he, List.flatMap_cons, List.flatMap_singleton, Bytes.utf8EncodeChar_ascii hl,
      Bytes.utf8EncodeChar_ascii (by decide)]
    exact content_backslash (escape_short hl hu hs bs) read
  · have h₁ := hexDigit_ascii (c.toNat / 16) (by omega)
    have h₂ := hexDigit_ascii (c.toNat % 16) (by omega)
    rw [he]
    simp only [List.flatMap_cons, List.flatMap_nil, Bytes.utf8EncodeChar_ascii h₁,
      Bytes.utf8EncodeChar_ascii h₂]
    exact content_backslash (escape_control hc bs) read
  · rw [he, List.flatMap_singleton]
    exact content_plains (fun b h => isPlain_of_mem hq hb hc h) read bs

theorem content_escaped (cs : List Char) (read bs : Bytes) :
    content read ((cs.flatMap escapeChar).flatMap String.utf8EncodeChar ++ bs) =
      content ((cs.flatMap String.utf8EncodeChar).reverse ++ read) bs := by
  induction cs generalizing read with
  | nil => rfl
  | cons c cs ih =>
    rw [List.flatMap_cons, List.flatMap_append, List.append_assoc, content_escapeChar, ih]
    simp

/-- **Strings.** What stands behind the opening quote of a literal is read as the string. -/
theorem ofString_literal (s : String) : ∃ body, Bytes.ofString (literal s) = '"'.toUInt8 :: body ∧
    ∀ rest, content [] (body ++ rest) = .ok (s, rest) := by
  refine ⟨(s.toList.flatMap escapeChar).flatMap String.utf8EncodeChar ++ ['"'.toUInt8], ?_, ?_⟩
  · have hq : Bytes.ofString "\"" = ['"'.toUInt8] := rfl
    rw [literal, Bytes.ofString_append, Bytes.ofString_append, hq, Bytes.ofString_ofList,
      List.append_assoc]
    rfl
  · intro rest
    rw [List.append_assoc, content_escaped]
    apply content_quote
    rw [List.append_nil, List.reverse_reverse, Bytes.ofString_eq_flatMap]

end EncryptedColumns.Json
