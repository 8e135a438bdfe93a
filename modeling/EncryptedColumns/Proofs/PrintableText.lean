import EncryptedColumns.Proofs.FloatText
import EncryptedColumns.Proofs.StringText
import EncryptedColumns.Proofs.ValueText

/-!
# Written values hold no controls

Every control character is written as an escape, wherever it stands in a value, and what
is written around strings holds none. So no byte of a written value lies below the blank.
-/

namespace EncryptedColumns

def IsPrintable (s : String) : Prop :=
  ∀ c ∈ s.toList, 0x20 ≤ c.toNat

instance (s : String) : Decidable (IsPrintable s) :=
  List.decidableBAll (fun c : Char => 0x20 ≤ c.toNat) s.toList

theorem IsPrintable.append {s t : String} (hs : IsPrintable s) (ht : IsPrintable t) :
    IsPrintable (s ++ t) := by
  unfold IsPrintable at *
  rw [String.toList_append]
  exact List.forall_mem_append.2 ⟨hs, ht⟩

theorem IsPrintable.le_of_mem_ofString {s : String} (h : IsPrintable s) {b : UInt8}
    (hb : b ∈ Bytes.ofString s) : 0x20 ≤ b.toNat := by
  rw [Bytes.ofString_eq_flatMap] at hb
  obtain ⟨c, hc, hb⟩ := List.mem_flatMap.1 hb
  by_cases ha : c.toNat < 128
  · rw [Bytes.utf8EncodeChar_ascii ha] at hb
    have hle := h c hc
    rw [List.mem_singleton.1 hb, ← Bytes.toNat_ofUInt8, Bytes.ofUInt8_toUInt8 ha]
    exact hle
  · have := Bytes.le_toNat_of_mem_utf8EncodeChar (Nat.le_of_not_lt ha) hb
    omega

namespace Json

theorem le_toNat_of_isDigit {c : Char} (h : c.isDigit = true) : 0x20 ≤ c.toNat := by
  simp only [Char.isDigit, Bool.and_eq_true, decide_eq_true_eq, UInt32.le_iff_toNat_le] at h
  exact Nat.le_trans (by decide) h.1

theorem le_toNat_of_shortEscape {l c : Char} (h : shortEscape l = some c) : 0x20 ≤ l.toNat := by
  unfold shortEscape at h
  split at h
  · decide
  · decide
  · decide
  · decide
  · decide
  · decide
  · decide
  · decide
  · cases h

theorem le_toNat_hexDigit : ∀ n < 16, 0x20 ≤ (hexDigit n).toNat := by decide

theorem le_toNat_of_mem_escapeChar {c d : Char} (h : d ∈ escapeChar c) : 0x20 ≤ d.toNat := by
  rcases escapeChar_cases c with ⟨l, _, _, hs, he⟩ | ⟨hc, he⟩ | ⟨_, _, hc, he⟩
  · rw [he] at h
    simp only [List.mem_cons, List.not_mem_nil, or_false] at h
    rcases h with rfl | rfl
    · decide
    · exact le_toNat_of_shortEscape hs
  · rw [he] at h
    simp only [List.mem_cons, List.not_mem_nil, or_false] at h
    rcases h with rfl | rfl | rfl | rfl | rfl | rfl
    · decide
    · decide
    · decide
    · decide
    · exact le_toNat_hexDigit _ (by omega)
    · exact le_toNat_hexDigit _ (by omega)
  · rw [he] at h
    rw [List.mem_singleton.1 h]
    exact hc

theorem isPrintable_literal (s : String) : IsPrintable (literal s) := by
  have hbody : IsPrintable (String.ofList (s.toList.flatMap escapeChar)) := by
    intro d hd
    rw [String.toList_ofList] at hd
    obtain ⟨c, _, hd⟩ := List.mem_flatMap.1 hd
    exact le_toNat_of_mem_escapeChar hd
  have hquote : IsPrintable "\"" := by decide
  exact (hquote.append hbody).append hquote

theorem isPrintable_repr (m : Nat) : IsPrintable m.repr := by
  intro c hc
  rw [Nat.toList_repr] at hc
  exact le_toNat_of_isDigit (Integer.isDigit_of_mem_toDigits c hc)

theorem isPrintable_number (n : Number) : IsPrintable n.text := by
  cases n with
  | whole n range =>
    cases n with
    | ofNat m => exact isPrintable_repr m
    | negSucc m =>
      have hminus : IsPrintable "-" := by decide
      exact hminus.append (isPrintable_repr (m + 1))
  | float x =>
    intro c hc
    rcases isFloatChar_write floatLayout x hc with h | rfl | rfl | rfl | rfl
    · exact le_toNat_of_isDigit h
    · decide
    · decide
    · decide
    · decide

theorem isPrintable_separated : ∀ {ss : List String}, (∀ s ∈ ss, IsPrintable s) →
    IsPrintable (separated ss)
  | [], _ => by decide
  | [s], h => h s (List.mem_singleton_self s)
  | s :: t :: ss, h => by
    have hcomma : IsPrintable "," := by decide
    obtain ⟨hs, h⟩ := List.forall_mem_cons.1 h
    exact (hs.append hcomma).append (isPrintable_separated h)

theorem isPrintable_compact (j : Json) : IsPrintable j.compact := by
  induction j using induct with
  | null => decide
  | bool b => cases b <;> decide
  | number n => exact isPrintable_number n
  | string s => exact isPrintable_literal s
  | array items ih =>
    have hopen : IsPrintable "[" := by decide
    have hclose : IsPrintable "]" := by decide
    have hitems : IsPrintable (separated (items.map compact)) := by
      apply isPrintable_separated
      intro s hs
      obtain ⟨j, hj, rfl⟩ := List.mem_map.1 hs
      exact ih j hj
    rw [compact, compactItems_eq_map]
    exact (hopen.append hitems).append hclose
  | object fields ih =>
    have hopen : IsPrintable "\x7b" := by decide
    have hclose : IsPrintable "\x7d" := by decide
    have hcolon : IsPrintable ":" := by decide
    have hfields : IsPrintable (separated (compactFields fields)) := by
      rw [compactFields_eq_map]
      apply isPrintable_separated
      intro s hs
      obtain ⟨g, hg, rfl⟩ := List.mem_map.1 hs
      obtain ⟨f, hf, rfl⟩ := List.mem_map.1 hg
      exact ((isPrintable_literal f.1).append hcolon).append (ih f hf)
    rw [compact]
    exact (hopen.append hfields).append hclose

end Json

end EncryptedColumns
