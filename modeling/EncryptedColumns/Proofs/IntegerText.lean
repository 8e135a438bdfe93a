import EncryptedColumns.Integer
import EncryptedColumns.Json.Reader

/-!
# Integers are read back

An integer is spelled with at least one digit, behind at most one sign, and any number of
zeros may lead. Just these texts are read, each as the number it spells, as long as the
number has 64 bits. What is written for an integer is one of them.
-/

namespace EncryptedColumns.Integer

structure IsDigits (ds : List Char) : Prop where
  nonempty : ds ≠ []
  digits : ∀ c ∈ ds, c.isDigit = true

/-- The text spells the number, which may be of any size. -/
inductive Spells : List Char → Int → Prop
  | plain {ds : List Char} : IsDigits ds → Spells ds (Nat.ofDigitChars 10 ds 0)
  | plus {ds : List Char} : IsDigits ds → Spells ('+' :: ds) (Nat.ofDigitChars 10 ds 0)
  | minus {ds : List Char} : IsDigits ds → Spells ('-' :: ds) (-(Nat.ofDigitChars 10 ds 0 : Int))

/-! ## Digits within a limit -/

theorem le_ofDigitChars (cs : List Char) (init : Nat) : init ≤ Nat.ofDigitChars 10 cs init := by
  induction cs generalizing init with
  | nil => simp
  | cons c cs ih =>
    rw [Nat.ofDigitChars_cons]
    have := ih (10 * init + (c.toNat - '0'.toNat))
    omega

theorem size_digits {limit : Nat} {beyond : Fault} {cs : List Char} {read : Nat}
    (hd : ∀ c ∈ cs, c.isDigit = true) (hl : Nat.ofDigitChars 10 cs read ≤ limit) :
    size limit beyond read cs = .ok (Nat.ofDigitChars 10 cs read) := by
  induction cs generalizing read with
  | nil => simp [size]
  | cons c cs ih =>
    have hn : 10 * read + (c.toNat - '0'.toNat) = read * 10 + (c.toNat - '0'.toNat) := by omega
    rw [Nat.ofDigitChars_cons, hn] at hl ⊢
    have hle := Nat.le_trans (le_ofDigitChars cs _) hl
    rw [size, if_pos (hd c (List.mem_cons_self ..))]
    dsimp only
    rw [if_pos hle]
    exact ih (fun d h => hd d (List.mem_cons_of_mem _ h)) hl

theorem size_eq_ok_iff {limit : Nat} {beyond : Fault} {cs : List Char} {read n : Nat}
    (hr : read ≤ limit) : size limit beyond read cs = .ok n ↔
      (∀ c ∈ cs, c.isDigit = true) ∧ Nat.ofDigitChars 10 cs read = n ∧ n ≤ limit := by
  constructor
  · intro h
    -- the limit holds of the digits read so far, so it holds at the end
    induction cs generalizing read with
    | nil =>
      cases h
      exact ⟨List.forall_mem_nil _, Nat.ofDigitChars_nil, hr⟩
    | cons c cs ih =>
      rw [size] at h
      by_cases hc : c.isDigit = true
      · rw [if_pos hc] at h
        dsimp only at h
        by_cases hle : read * 10 + (c.toNat - '0'.toNat) ≤ limit
        · rw [if_pos hle] at h
          obtain ⟨hd, hv, hn⟩ := ih hle h
          rw [Nat.ofDigitChars_cons, Nat.mul_comm]
          exact ⟨List.forall_mem_cons.2 ⟨hc, hd⟩, hv, hn⟩
        · rw [if_neg hle] at h
          cases h
      · rw [if_neg hc] at h
        cases h
  · intro h
    obtain ⟨hd, hv, hn⟩ := h
    rw [size_digits hd (hv.symm ▸ hn), hv]

theorem map_coe (x : Except Fault Nat) (f : Int → Int64) :
    (do let n ← x; pure (n : Int)).map f = x.map fun n : Nat => f n := by
  cases x <;> rfl

section
variable {s : String} {ds : List Char}

theorem read_plus (hs : s.toList = '+' :: ds) (hd : ds ≠ []) :
    read s = (size 0x7FFFFFFFFFFFFFFF .tooLarge 0 ds).map fun n : Nat => Int64.ofInt n := by
  rw [read, hs]
  cases ds with
  | nil => exact absurd rfl hd
  | cons c cs => exact map_coe _ fun n => Int64.ofInt n

theorem read_minus (hs : s.toList = '-' :: ds) (hd : ds ≠ []) :
    read s = (size 0x8000000000000000 .tooSmall 0 ds).map fun n : Nat => Int64.ofInt (-(n : Int)) := by
  rw [read, hs]
  cases ds with
  | nil => exact absurd rfl hd
  | cons c cs => exact map_coe _ fun n => Int64.ofInt (-n)

theorem read_plain {c : Char} (hs : s.toList = c :: ds) (hp : c ≠ '+') (hm : c ≠ '-') :
    read s = (size 0x7FFFFFFFFFFFFFFF .tooLarge 0 (c :: ds)).map fun n : Nat => Int64.ofInt n := by
  rw [read, hs]
  split
  · rename_i h; cases h
  · rename_i h; cases h; exact absurd rfl hp
  · rename_i h; cases h; exact absurd rfl hm
  · rename_i h; cases h; exact absurd rfl hm
  · rename_i h; cases h; exact absurd rfl hp
  · exact map_coe _ fun n => Int64.ofInt n

end

/-! ## Reading -/

theorem map_size_eq_ok_iff {limit : Nat} {beyond : Fault} {ds : List Char} {n : Int64} {f : Nat → Int}
    (hne : ds ≠ []) (hf : ∀ m ≤ limit, -0x8000000000000000 ≤ f m ∧ f m < 0x8000000000000000) :
    (size limit beyond 0 ds).map (fun m => Int64.ofInt (f m)) = .ok n ↔
      IsDigits ds ∧ n.toInt = f (Nat.ofDigitChars 10 ds 0) ∧ Nat.ofDigitChars 10 ds 0 ≤ limit := by
  constructor
  · intro h
    obtain ⟨m, hm, rfl⟩ := map_eq_ok.1 h
    obtain ⟨hd, rfl, hle⟩ := (size_eq_ok_iff (Nat.zero_le _)).1 hm
    obtain ⟨hmin, hmax⟩ := hf _ hle
    exact ⟨⟨hne, hd⟩, Int64.toInt_ofInt_of_le hmin hmax, hle⟩
  · intro h
    obtain ⟨hd, hn, hle⟩ := h
    refine map_eq_ok.2 ⟨_, size_digits hd.digits hle, ?_⟩
    rw [← hn, Int64.ofInt_toInt]

theorem spells_of_read {s : String} {n : Int64} (h : read s = .ok n) : Spells s.toList n.toInt := by
  cases hs : s.toList with
  | nil =>
    rw [read, hs] at h
    cases h
  | cons c ds =>
    by_cases hp : c = '+'
    · subst hp
      have hne : ds ≠ [] := by
        rintro rfl
        rw [read, hs] at h
        cases h
      rw [read_plus hs hne, map_size_eq_ok_iff hne (by omega)] at h
      rw [h.2.1]
      exact .plus h.1
    by_cases hm : c = '-'
    · subst hm
      have hne : ds ≠ [] := by
        rintro rfl
        rw [read, hs] at h
        cases h
      rw [read_minus hs hne, map_size_eq_ok_iff hne (by omega)] at h
      rw [h.2.1]
      exact .minus h.1
    rw [read_plain hs hp hm, map_size_eq_ok_iff (List.cons_ne_nil c ds) (by omega)] at h
    rw [h.2.1]
    exact .plain h.1

theorem read_of_spells {s : String} {n : Int64} (h : Spells s.toList n.toInt) : read s = .ok n := by
  have hmin := n.le_toInt
  have hmax := n.toInt_lt
  generalize hs : s.toList = cs at h
  generalize hv : n.toInt = v at h
  cases h with
  | plain hd =>
    cases cs with
    | nil => exact absurd rfl hd.nonempty
    | cons c ds =>
      have hc := hd.digits c (List.mem_cons_self ..)
      have hp : c ≠ '+' := by rintro rfl; exact absurd hc (by decide)
      have hm : c ≠ '-' := by rintro rfl; exact absurd hc (by decide)
      rw [read_plain hs hp hm]
      exact (map_size_eq_ok_iff hd.nonempty (by omega)).2 ⟨hd, hv, by omega⟩
  | plus hd =>
    rw [read_plus hs hd.nonempty]
    exact (map_size_eq_ok_iff hd.nonempty (by omega)).2 ⟨hd, hv, by omega⟩
  | minus hd =>
    rw [read_minus hs hd.nonempty]
    exact (map_size_eq_ok_iff hd.nonempty (by omega)).2 ⟨hd, hv, by omega⟩

/-- **Exactness.** An integer is read from the texts that spell it and from no others. -/
theorem read_eq_ok_iff {s : String} {n : Int64} : read s = .ok n ↔ Spells s.toList n.toInt :=
  ⟨spells_of_read, read_of_spells⟩

theorem exists_read_of_spells {s : String} {v : Int} (h : Spells s.toList v)
    (hmin : -0x8000000000000000 ≤ v) (hmax : v < 0x8000000000000000) :
    ∃ n : Int64, read s = .ok n ∧ n.toInt = v := by
  have hv : (Int64.ofInt v).toInt = v := Int64.toInt_ofInt_of_le hmin hmax
  exact ⟨Int64.ofInt v, read_of_spells (hv.symm ▸ h), hv⟩

/-! ## Writing -/

theorem isDigit_of_mem_toDigits {m : Nat} : ∀ c ∈ Nat.toDigits 10 m, c.isDigit = true := by
  intro c hc
  exact Nat.isDigit_of_mem_toDigits (by decide) (by decide) hc

theorem isDigits_toDigits (m : Nat) : IsDigits (Nat.toDigits 10 m) :=
  ⟨Nat.toDigits_ne_nil, isDigit_of_mem_toDigits⟩

theorem spells_write (n : Int64) : Spells (write n).toList n.toInt := by
  have hvalue (m : Nat) : Nat.ofDigitChars 10 (Nat.toDigits 10 m) 0 = m := Nat.ofDigitChars_ten_toDigits
  rw [write]
  cases n.toInt with
  | ofNat m =>
    have hw : (Int.ofNat m).repr.toList = Nat.toDigits 10 m := Nat.toList_repr
    have hs := Spells.plain (isDigits_toDigits m)
    rw [hvalue] at hs
    rw [hw]
    exact hs
  | negSucc m =>
    have hw : (Int.negSucc m).repr.toList = '-' :: Nat.toDigits 10 (m + 1) := by
      rw [Int.repr, String.toList_append, Nat.toList_repr]
      rfl
    have hs := Spells.minus (isDigits_toDigits (m + 1))
    rw [hvalue] at hs
    rw [hw]
    exact hs

theorem read_write (n : Int64) : read (write n) = .ok n :=
  read_of_spells (spells_write n)

end EncryptedColumns.Integer
