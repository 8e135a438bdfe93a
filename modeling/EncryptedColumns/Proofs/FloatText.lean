import EncryptedColumns.Proofs.NumberText

/-!
# Floats are read back, or not

A float is written with its shortest digits, and the reader scales digits with
roundings of its own, so not every float comes back. One that comes back on its own
does so inside a document too.
-/

namespace EncryptedColumns

namespace Json

section
open FloatLayout

def IsFloatChar (c : Char) : Prop :=
  c.isDigit = true ∨ c = '.' ∨ c = '-' ∨ c = '+' ∨ c = 'e'

theorem isFloatChar_toDigits {m : Nat} {c : Char} (h : c ∈ Nat.toDigits 10 m) : IsFloatChar c :=
  .inl (Integer.isDigit_of_mem_toDigits c h)

theorem isFloatChar_zeros {k : Nat} {c : Char} (h : c ∈ zeros k) : IsFloatChar c := by
  rw [List.eq_of_mem_replicate h]
  exact .inl rfl

variable {ds : List Char} (hds : ∀ c ∈ ds, IsFloatChar c)
include hds

theorem isFloatChar_trimmed {c : Char} (h : c ∈ trimmed ds) : IsFloatChar c := by
  unfold trimmed at h
  split at h
  · rw [List.mem_singleton.1 h]
    exact .inl rfl
  · apply hds
    have := (List.dropWhile_suffix _).subset (List.mem_reverse.1 h)
    exact List.mem_reverse.1 this

theorem isFloatChar_positional {lead : Int} {c : Char} (h : c ∈ positional ds lead) :
    IsFloatChar c := by
  unfold positional at h
  split at h
  · simp only [List.mem_append, List.mem_cons] at h
    rcases h with (rfl | rfl | h) | h
    · exact .inl rfl
    · exact .inr (.inl rfl)
    · exact isFloatChar_zeros h
    · exact hds c h
  · dsimp only at h
    split at h
    · simp only [List.mem_append, List.mem_cons, List.not_mem_nil, or_false] at h
      rcases h with (h | h) | rfl | rfl
      · exact hds c h
      · exact isFloatChar_zeros h
      · exact .inr (.inl rfl)
      · exact .inl rfl
    · simp only [List.mem_append, List.mem_cons] at h
      rcases h with h | rfl | h
      · exact hds c (List.mem_of_mem_take h)
      · exact .inr (.inl rfl)
      · exact hds c (List.mem_of_mem_drop h)

theorem isFloatChar_exponential {lead : Int} {c : Char} (h : c ∈ exponential ds lead) :
    IsFloatChar c := by
  simp only [exponential, List.mem_append, List.mem_cons] at h
  rcases h with h | rfl | rfl | h
  · split at h
    · simp only [List.mem_cons] at h
      rcases h with rfl | rfl | rfl | h
      · exact hds c (by simp)
      · exact .inr (.inl rfl)
      · exact hds c (by simp)
      · exact hds c (by simp [h])
    · exact hds c h
  · exact .inr (.inr (.inr (.inr rfl)))
  · split
    · exact .inr (.inr (.inl rfl))
    · exact .inr (.inr (.inr (.inl rfl)))
  · exact isFloatChar_toDigits h

end

theorem isFloatChar_write (layout : FloatLayout) (x : Double) {c : Char}
    (h : c ∈ (layout.write x).toList) : IsFloatChar c := by
  have hds {m : Nat} : ∀ c ∈ FloatLayout.trimmed (Nat.toDigits 10 m), IsFloatChar c := fun c hc =>
    isFloatChar_trimmed (fun c hc => isFloatChar_toDigits hc) hc
  simp only [FloatLayout.write, String.toList_ofList] at h
  have hbody : ∀ {b : Bool} {lead : Int} {m : Nat}, c ∈ (if b = true
      then FloatLayout.positional (FloatLayout.trimmed (Nat.toDigits 10 m)) lead
      else FloatLayout.exponential (FloatLayout.trimmed (Nat.toDigits 10 m)) lead) → IsFloatChar c := by
    intro b lead m hc
    split at hc
    · exact isFloatChar_positional hds hc
    · exact isFloatChar_exponential hds hc
  split at h
  · rcases List.mem_cons.1 h with rfl | h
    · exact .inr (.inr (.inl rfl))
    · exact hbody h
  · exact hbody h

theorem not_isBlank_of_isFloatChar {c : Char} (h : IsFloatChar c) :
    c.toNat < 128 ∧ isBlank c.toUInt8 = false := by
  rcases h with h | rfl | rfl | rfl | rfl
  · have ha := isDigit_ascii h
    refine ⟨ha, ?_⟩
    simp only [isBlank, Bytes.ofUInt8_toUInt8 ha]
    split
    · cases h
    · cases h
    · cases h
    · cases h
    · rfl
  · exact ⟨by decide, by decide⟩
  · exact ⟨by decide, by decide⟩
  · exact ⟨by decide, by decide⟩
  · exact ⟨by decide, by decide⟩

theorem not_isBlank_write (layout : FloatLayout) (x : Double) :
    ∀ b ∈ Bytes.ofString (layout.write x), isBlank b = false := by
  have hc : ∀ c ∈ (layout.write x).toList, c.toNat < 128 ∧ isBlank c.toUInt8 = false := fun c h =>
    not_isBlank_of_isFloatChar (isFloatChar_write layout x h)
  rw [← String.ofList_toList (s := layout.write x), Bytes.ofString_ofList_ascii fun c h => (hc c h).1]
  intro b hb
  obtain ⟨c, h, rfl⟩ := List.mem_map.1 hb
  exact (hc c h).2

theorem skipBlanks_of_not_isBlank {bs : Bytes} (h : ∀ b ∈ bs, isBlank b = false) :
    skipBlanks bs = bs := by
  cases bs with
  | nil => rfl
  | cons b bs => simp [skipBlanks, h b (by simp)]

/-! ## Floats that are read back -/

theorem eq_nil_of_readAll {α : Type} {r : Reader α} {bs : Bytes} {a : α} (h : r.readAll bs = .ok a) :
    ∃ rest, r.run bs = .ok (a, rest) ∧ skipBlanks rest = [] := by
  obtain ⟨⟨a', rest⟩, hr, h⟩ := bind_eq_ok.1 h
  dsimp only at h
  split at h
  · rename_i hs; cases h; exact ⟨rest, hr, hs⟩
  · cases h

theorem numeral_of_run {inner : Option (Reader Json)} {bs rest : Bytes} {n : Number}
    (h : (level inner).run bs = .ok (.number n, rest)) :
    ∃ m, numeral .endInValue (skipBlanks bs) = .ok (m, rest) ∧ m.value = .ok n := by
  obtain ⟨⟨l, b, bs'⟩, hl, h⟩ := bind_eq_ok.1 h
  have hb : skipBlanks bs = b :: bs' := by
    unfold lead at hl
    split at hl
    · cases hl
    · split at hl <;> cases hl
      assumption
  rw [hb]
  dsimp only at h
  -- every other start gives a value that is no number
  split at h
  · rename_i s
    cases s with
    | null | yes | no =>
      obtain ⟨r, _, h⟩ := bind_eq_ok.1 h
      cases h
    | number =>
      obtain ⟨⟨m, r⟩, hm, h⟩ := bind_eq_ok.1 h
      obtain ⟨v, hv, h⟩ := bind_eq_ok.1 h
      cases h
      exact ⟨m, hm, hv⟩
    | string =>
      obtain ⟨⟨s, r⟩, _, h⟩ := bind_eq_ok.1 h
      cases h
  · cases h
  · obtain ⟨⟨items, r⟩, _, h⟩ := bind_eq_ok.1 h
    cases h
  · obtain ⟨⟨fields, r⟩, _, h⟩ := bind_eq_ok.1 h
    cases h

end Json

def Double.IsReadBack (x : Double) : Prop :=
  Json.parse (Bytes.ofString (Json.floatLayout.write x)) = .ok (.number (.float x))

instance (x : Double) : Decidable x.IsReadBack :=
  match h : Json.parse (Bytes.ofString (Json.floatLayout.write x)) with
  | .ok j => decidable_of_iff (j = .number (.float x)) (by simp [Double.IsReadBack, h])
  | .error _ => isFalse (by simp [Double.IsReadBack, h])

namespace Json

theorem isReadBack_float {x : Double} (h : x.IsReadBack) : (Number.float x).IsReadBack := by
  have hb := not_isBlank_write floatLayout x
  obtain ⟨rest, hr, hrest⟩ := eq_nil_of_readAll h
  obtain ⟨m, hm, hv⟩ := numeral_of_run hr
  rw [skipBlanks_of_not_isBlank hb] at hm
  rw [skipBlanks_of_not_isBlank fun b h => hb b ((numeral_suffix hm).subset h)] at hrest
  exact ⟨m, hrest ▸ hm, hv⟩

end Json

end EncryptedColumns
