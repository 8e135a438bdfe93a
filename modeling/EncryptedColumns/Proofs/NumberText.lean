import EncryptedColumns.Json.Parser
import EncryptedColumns.Json.Printer
import EncryptedColumns.Proofs.IntegerText
import EncryptedColumns.Proofs.Utf8

/-!
# Numbers are read back

A numeral ends where its digits end, so what follows it does not change how it is
read, as long as that does not continue it. Whole numbers are always read back; of
floats it depends on the float.
-/

namespace EncryptedColumns.Json

/-- What may follow a numeral without continuing it. -/
def Stops (bs : Bytes) : Prop :=
  ∀ b ∈ bs.head?, digit? b = none ∧ Char.ofUInt8 b ≠ '.' ∧ Char.ofUInt8 b ≠ 'e' ∧
    Char.ofUInt8 b ≠ 'E'

theorem stops_nil : Stops [] := by
  intro b h; cases h

/-! ## What follows a numeral -/

section
variable {e : Fault} {rest : Bytes} (hs : Stops rest)
include hs

theorem digits_append (bs : Bytes) :
    digits (bs ++ rest) = ((digits bs).1, (digits bs).2 ++ rest) := by
  induction bs with
  | nil =>
    cases rest with
    | nil => rfl
    | cons b rest =>
      have hb := (hs b rfl).1
      simp only [List.nil_append, digits, hb]
  | cons b bs ih =>
    simp only [List.cons_append, digits]
    cases digit? b with
    | none => rfl
    | some d => simp only [ih]

theorem digitsDue_append {bs r : Bytes} {ds : List Nat} (h : digitsDue e bs = .ok (ds, r)) :
    digitsDue e (bs ++ rest) = .ok (ds, r ++ rest) := by
  unfold digitsDue at h ⊢
  rw [digits_append hs]
  split at h
  · cases h
  · cases h
  · rename_i ds' r' h₁ h₂ hd
    cases h
    rw [hd]
    cases ds with
    | nil =>
      cases r with
      | nil => exact absurd rfl (h₁ rfl)
      | cons b r => exact absurd rfl (h₂ b r rfl)
    | cons d ds => rfl

theorem wholePart_append {bs r : Bytes} {ds : List Nat} (h : wholePart e bs = .ok (ds, r)) :
    wholePart e (bs ++ rest) = .ok (ds, r ++ rest) := by
  obtain ⟨⟨ds', r'⟩, hd, h⟩ := bind_eq_ok.1 h
  refine bind_eq_ok.2 ⟨(ds', r' ++ rest), digitsDue_append hs hd, ?_⟩
  dsimp only at h ⊢
  split at h
  · cases h
  · cases h; rfl

theorem fractionPart_append {bs r : Bytes} {ds : List Nat} (h : fractionPart e bs = .ok (ds, r)) :
    fractionPart e (bs ++ rest) = .ok (ds, r ++ rest) := by
  cases bs with
  | nil =>
    cases h
    cases rest with
    | nil => rfl
    | cons b rest => exact if_neg (hs b rfl).2.1
  | cons b bs =>
    simp only [fractionPart, List.cons_append] at h ⊢
    split at h
    · rename_i hb
      rw [if_pos hb]
      exact digitsDue_append hs h
    · rename_i hb
      cases h
      rw [if_neg hb]
      rfl

theorem exponentPart_append {bs r : Bytes} {x : Option (Bool × List Nat)}
    (h : exponentPart e bs = .ok (x, r)) : exponentPart e (bs ++ rest) = .ok (x, r ++ rest) := by
  cases bs with
  | nil =>
    cases h
    cases rest with
    | nil => rfl
    | cons b rest => exact if_neg fun hb => hb.elim (hs b rfl).2.2.1 (hs b rfl).2.2.2
  | cons b bs =>
    simp only [exponentPart, List.cons_append] at h ⊢
    split at h
    · rename_i hb
      rw [if_pos hb]
      obtain ⟨⟨ds, r'⟩, hd, h⟩ := bind_eq_ok.1 h
      cases h
      -- digits are due, so a sign at the end would have been refused
      have hsign : exponentSign (bs ++ rest) = ((exponentSign bs).1, (exponentSign bs).2 ++ rest) := by
        cases bs with
        | nil => cases hd
        | cons c bs =>
          simp only [exponentSign, List.cons_append]
          split <;> rfl
      refine bind_eq_ok.2 ⟨(ds, r' ++ rest), ?_, ?_⟩
      · rw [hsign]; exact digitsDue_append hs hd
      · rw [hsign]; rfl
    · rename_i hb
      cases h
      rw [if_neg hb]
      rfl

theorem numeral_append {bs r : Bytes} {n : Numeral} (h : numeral e bs = .ok (n, r)) :
    numeral e (bs ++ rest) = .ok (n, r ++ rest) := by
  obtain ⟨⟨w, r₁⟩, hw, h⟩ := bind_eq_ok.1 h
  obtain ⟨⟨f, r₂⟩, hf, h⟩ := bind_eq_ok.1 h
  obtain ⟨⟨x, r₃⟩, hx, h⟩ := bind_eq_ok.1 h
  obtain ⟨rfl, rfl⟩ := Prod.mk.inj (Except.ok.inj h)
  have hsign : minusSign (bs ++ rest) = ((minusSign bs).1, (minusSign bs).2 ++ rest) := by
    cases bs with
    | nil => cases hw
    | cons b bs =>
      simp only [minusSign, List.cons_append]
      split <;> rfl
  refine bind_eq_ok.2 ⟨(w, r₁ ++ rest), by rw [hsign]; exact wholePart_append hs hw, ?_⟩
  refine bind_eq_ok.2 ⟨(f, r₂ ++ rest), fractionPart_append hs hf, ?_⟩
  refine bind_eq_ok.2 ⟨(x, r₃ ++ rest), exponentPart_append hs hx, ?_⟩
  rw [hsign]
  rfl

end

theorem digits_suffix (bs : Bytes) : (digits bs).2 <:+ bs := by
  induction bs with
  | nil => exact List.suffix_refl _
  | cons b bs ih =>
    simp only [digits]
    split
    · exact ih.trans (List.suffix_cons ..)
    · exact List.suffix_refl _

theorem digitsDue_suffix {e : Fault} {bs r : Bytes} {ds : List Nat}
    (h : digitsDue e bs = .ok (ds, r)) : r <:+ bs := by
  have := digits_suffix bs
  unfold digitsDue at h
  split at h
  · cases h
  · cases h
  · rename_i hd
    cases h
    rwa [hd] at this

theorem wholePart_suffix {e : Fault} {bs r : Bytes} {ds : List Nat}
    (h : wholePart e bs = .ok (ds, r)) : r <:+ bs := by
  obtain ⟨⟨ds', r'⟩, hd, h⟩ := bind_eq_ok.1 h
  dsimp only at h
  split at h <;> cases h
  exact digitsDue_suffix hd

theorem fractionPart_suffix {e : Fault} {bs r : Bytes} {ds : List Nat}
    (h : fractionPart e bs = .ok (ds, r)) : r <:+ bs := by
  unfold fractionPart at h
  split at h
  · split at h
    · exact (digitsDue_suffix h).trans (List.suffix_cons ..)
    · cases h; exact List.suffix_refl _
  · cases h; exact List.suffix_refl _

theorem exponentSign_suffix (bs : Bytes) : (exponentSign bs).2 <:+ bs := by
  unfold exponentSign
  split
  · split
    · exact List.suffix_cons ..
    · exact List.suffix_cons ..
    · exact List.suffix_refl _
  · exact List.suffix_refl _

theorem exponentPart_suffix {e : Fault} {bs r : Bytes} {x : Option (Bool × List Nat)}
    (h : exponentPart e bs = .ok (x, r)) : r <:+ bs := by
  unfold exponentPart at h
  split at h
  · split at h
    · obtain ⟨⟨ds, r'⟩, hd, h⟩ := bind_eq_ok.1 h
      cases h
      exact ((digitsDue_suffix hd).trans (exponentSign_suffix _)).trans (List.suffix_cons ..)
    · cases h; exact List.suffix_refl _
  · cases h; exact List.suffix_refl _

theorem minusSign_suffix (bs : Bytes) : (minusSign bs).2 <:+ bs := by
  unfold minusSign
  split
  · split
    · exact List.suffix_cons ..
    · exact List.suffix_refl _
  · exact List.suffix_refl _

theorem numeral_suffix {e : Fault} {bs r : Bytes} {n : Numeral} (h : numeral e bs = .ok (n, r)) :
    r <:+ bs := by
  obtain ⟨⟨w, r₁⟩, hw, h⟩ := bind_eq_ok.1 h
  obtain ⟨⟨f, r₂⟩, hf, h⟩ := bind_eq_ok.1 h
  obtain ⟨⟨x, r₃⟩, hx, h⟩ := bind_eq_ok.1 h
  cases h
  exact (exponentPart_suffix hx).trans ((fractionPart_suffix hf).trans
    ((wholePart_suffix hw).trans (minusSign_suffix bs)))

/-! ## Whole numbers -/

def decimalDigits (m : Nat) : List Nat :=
  (Nat.toDigits 10 m).map fun c => c.toNat - '0'.toNat

theorem decimalValue_decimalDigits (m : Nat) : decimalValue (decimalDigits m) = m := by
  have h : Nat.ofDigitChars 10 (Nat.toDigits 10 m) 0 = m := Nat.ofDigitChars_ten_toDigits
  rw [Nat.ofDigitChars_eq_foldl] at h
  rw [decimalValue, decimalDigits, List.foldl_map]
  simpa only [Nat.mul_comm] using h

theorem isDigit_ascii {c : Char} (h : c.isDigit = true) : c.toNat < 128 := by
  simp only [Char.isDigit, Bool.and_eq_true, decide_eq_true_eq, UInt32.le_iff_toNat_le] at h
  exact Nat.lt_of_le_of_lt h.2 (by decide)

theorem digit?_toUInt8 {c : Char} (h : c.isDigit = true) :
    digit? c.toUInt8 = some (c.toNat - '0'.toNat) := by
  simp only [digit?, Bytes.ofUInt8_toUInt8 (isDigit_ascii h), h, if_true]

theorem digits_chars {cs : List Char} (h : ∀ c ∈ cs, c.isDigit = true) :
    digits (cs.map Char.toUInt8) = (cs.map fun c => c.toNat - '0'.toNat, []) := by
  induction cs with
  | nil => rfl
  | cons c cs ih =>
    simp only [List.map_cons, digits, digit?_toUInt8 (h c (by simp)), ih fun d hd => h d (by simp [hd])]

theorem ofString_repr (m : Nat) :
    Bytes.ofString m.repr = (Nat.toDigits 10 m).map Char.toUInt8 := by
  rw [Nat.repr_eq_ofList_toDigits]
  exact Bytes.ofString_ofList_ascii fun c hc => isDigit_ascii (Integer.isDigit_of_mem_toDigits c hc)

theorem head?_toDigits_ne_zero (m : Nat) (h : 0 < m) : (Nat.toDigits 10 m).head? ≠ some '0' := by
  induction m using Nat.strongRecOn with
  | _ m ih =>
    by_cases hm : m < 10
    · have : ∀ k < 10, 0 < k → (Nat.toDigits 10 k).head? ≠ some '0' := by decide
      exact this m hm h
    · have hq := ih (m / 10) (by omega) (by omega)
      rw [Nat.toDigits_of_base_le (by decide) (Nat.le_of_not_lt hm), List.head?_append]
      cases hd : (Nat.toDigits 10 (m / 10)).head? with
      | none => exact absurd (List.head?_eq_none_iff.1 hd) Nat.toDigits_ne_nil
      | some c => rw [hd] at hq; exact hq

theorem decimalDigits_ne_zero_cons (m d : Nat) (ds : List Nat) : decimalDigits m ≠ 0 :: d :: ds := by
  intro h
  by_cases hm : m = 0
  · subst hm
    exact absurd (congrArg List.length h) (by simp [decimalDigits, Nat.toDigits_zero])
  · have hz := head?_toDigits_ne_zero m (Nat.pos_of_ne_zero hm)
    rw [decimalDigits] at h
    cases hc : Nat.toDigits 10 m with
    | nil => exact Nat.toDigits_ne_nil hc
    | cons c cs =>
      rw [hc] at h hz
      have h0 : c.toNat - '0'.toNat = 0 := (List.cons.inj h).1
      have hd := Integer.isDigit_of_mem_toDigits c (hc ▸ List.mem_cons_self ..)
      simp only [Char.isDigit, Bool.and_eq_true, decide_eq_true_eq, UInt32.le_iff_toNat_le] at hd
      apply hz
      rw [List.head?_cons, Option.some.injEq]
      apply Char.toNat_inj.1
      exact Nat.le_antisymm (Nat.le_of_sub_eq_zero h0) hd.1

theorem wholePart_repr (e : Fault) (m : Nat) :
    wholePart e (Bytes.ofString m.repr) = .ok (decimalDigits m, []) := by
  have hd : digits (Bytes.ofString m.repr) = (decimalDigits m, []) := by
    rw [ofString_repr]
    exact digits_chars Integer.isDigit_of_mem_toDigits
  have hne : decimalDigits m ≠ [] := by
    simp [decimalDigits, Nat.toDigits_ne_nil]
  refine bind_eq_ok.2 ⟨(decimalDigits m, []), ?_, ?_⟩
  · rw [digitsDue, hd]
    cases h : decimalDigits m with
    | nil => exact absurd h hne
    | cons d ds => rfl
  · dsimp only
    split
    · rename_i h
      exact absurd h (decimalDigits_ne_zero_cons m _ _)
    · rfl

theorem minusSign_repr (m : Nat) :
    minusSign (Bytes.ofString m.repr) = (false, Bytes.ofString m.repr) := by
  rw [ofString_repr]
  cases hc : Nat.toDigits 10 m with
  | nil => exact absurd hc Nat.toDigits_ne_nil
  | cons c cs =>
    have hd := Integer.isDigit_of_mem_toDigits c (hc ▸ List.mem_cons_self ..)
    refine if_neg ?_
    rw [Bytes.ofUInt8_toUInt8 (isDigit_ascii hd)]
    intro h
    subst h
    exact absurd hd (by decide)

theorem numeral_repr (e : Fault) (m : Nat) :
    numeral e (Bytes.ofString m.repr) = .ok (⟨false, decimalDigits m, [], none⟩, []) := by
  rw [numeral, minusSign_repr]
  simp only [wholePart_repr, fractionPart, exponentPart, bind, Except.bind, pure, Except.pure]

theorem numeral_minus_repr (e : Fault) (m : Nat) :
    numeral e ('-'.toUInt8 :: Bytes.ofString m.repr) = .ok (⟨true, decimalDigits m, [], none⟩, []) := by
  have hs : minusSign ('-'.toUInt8 :: Bytes.ofString m.repr) = (true, Bytes.ofString m.repr) := rfl
  rw [numeral, hs]
  simp only [wholePart_repr, fractionPart, exponentPart, bind, Except.bind, pure, Except.pure]

/-! ## Numbers that are read back -/

/-- The text of the number is a numeral, to its end, and stands for the number. -/
def Number.IsReadBack (n : Number) : Prop :=
  ∃ m, numeral .endInValue (Bytes.ofString n.text) = .ok (m, []) ∧ m.value = .ok n

theorem value_whole {negative : Bool} {ds : List Nat} {v : Int}
    (range : -0x8000000000000000 ≤ v ∧ v < 0x10000000000000000)
    (hv : (if negative then -(decimalValue ds : Int) else decimalValue ds) = v)
    (hz : negative = true → v ≠ 0) :
    (⟨negative, ds, [], none⟩ : Numeral).value = .ok (.whole v range) := by
  have hn : ¬(negative && v == 0) = true := by
    rw [Bool.and_eq_true, beq_iff_eq]
    exact fun h => hz h.1 h.2
  have hw : (⟨negative, ds, [], none⟩ : Numeral).whole? = some (.whole v range) := by
    simp only [Numeral.whole?, hv, if_neg hn, dif_pos range]
  rw [Numeral.value, hw]

theorem isReadBack_whole (n : Int) (range : -0x8000000000000000 ≤ n ∧ n < 0x10000000000000000) :
    (Number.whole n range).IsReadBack := by
  cases n with
  | ofNat k =>
    refine ⟨⟨false, decimalDigits k, [], none⟩, numeral_repr _ k, value_whole range ?_ ?_⟩
    · rw [decimalValue_decimalDigits]; rfl
    · intro h; cases h
  | negSucc k =>
    refine ⟨⟨true, decimalDigits (k + 1), [], none⟩, ?_, value_whole range ?_ ?_⟩
    · rw [Number.text, Int.repr, Bytes.ofString_append]
      exact numeral_minus_repr _ (k + 1)
    · rw [decimalValue_decimalDigits]; rfl
    · intro _ h; cases h

theorem lead_digit : ∀ b < 256, digit? (UInt8.ofNat b) ≠ none ∨ Char.ofUInt8 (UInt8.ofNat b) = '-' →
    isBlank (UInt8.ofNat b) = false ∧ Lead.of? (UInt8.ofNat b) = some (.scalar .number) := by
  decide +kernel

theorem lead_of_numeral {e : Fault} {bs r : Bytes} {n : Numeral} (h : numeral e bs = .ok (n, r)) :
    ∃ b bs', bs = b :: bs' ∧ ∀ rest, lead (b :: rest) = .ok (.scalar .number, b, rest) := by
  obtain ⟨⟨w, r₁⟩, hw, -⟩ := bind_eq_ok.1 h
  cases bs with
  | nil => cases hw
  | cons b bs =>
    refine ⟨b, bs, rfl, fun rest => ?_⟩
    have hb : digit? b ≠ none ∨ Char.ofUInt8 b = '-' := by
      by_cases hm : Char.ofUInt8 b = '-'
      · exact .inr hm
      · refine .inl fun hd => ?_
        simp only [minusSign, if_neg hm, wholePart, digitsDue, digits, hd, bind, Except.bind] at hw
        cases hw
    have hl := lead_digit b.toNat b.toNat_lt
    rw [UInt8.ofNat_toNat] at hl
    obtain ⟨hblank, hlead⟩ := hl hb
    simp only [lead, skipBlanks, List.dropWhile_cons, hblank, Bool.false_eq_true, if_false, hlead]

theorem run_number {n : Number} (hn : n.IsReadBack) (inner : Option (Reader Json)) {rest : Bytes}
    (hs : Stops rest) :
    (level inner).run (Bytes.ofString n.text ++ rest) = .ok (.number n, rest) := by
  obtain ⟨m, hm, hv⟩ := hn
  have hrun := numeral_append hs hm
  obtain ⟨b, bs, hbs, hl⟩ := lead_of_numeral hm
  rw [hbs, List.cons_append] at hrun ⊢
  refine bind_eq_ok.2 ⟨(.scalar .number, b, bs ++ rest), hl _, ?_⟩
  simp only [Scalar.read, hrun, hv, bind, Except.bind, pure, Except.pure]
  rfl

end EncryptedColumns.Json
