import EncryptedColumns.Proofs.FragmentShapes

/-!
# Names that stay apart

The names that are accepted are those of a grammar over a part of ASCII, and a schema and its
table can be told from where the dot stands. The column comes last and has no dot, so a column
that is qualified by its table shares its text with no other.
-/

namespace EncryptedColumns

namespace Identifier

/-! ## The grammar -/

def Opens (c : Char) : Prop :=
  0x41 ≤ c.toNat ∧ c.toNat ≤ 0x5A ∨ 0x61 ≤ c.toNat ∧ c.toNat ≤ 0x7A ∨ c = '_'

def Continues (c : Char) : Prop :=
  Opens c ∨ 0x30 ≤ c.toNat ∧ c.toNat ≤ 0x39 ∨ c = '$'

def IsName (s : String) : Prop :=
  ∃ c cs, s.toList = c :: cs ∧ Opens c ∧ ∀ d ∈ cs, Continues d

section
variable {c : Char}

theorem isUpper_iff_toNat : c.isUpper = true ↔ 0x41 ≤ c.toNat ∧ c.toNat ≤ 0x5A :=
  decide_eq_true_iff

theorem isLower_iff_toNat : c.isLower = true ↔ 0x61 ≤ c.toNat ∧ c.toNat ≤ 0x7A := by
  show (decide (c.val ≥ 'a'.val) && decide (c.val ≤ 'z'.val)) = true ↔ _
  rw [Bool.and_eq_true, decide_eq_true_iff, decide_eq_true_iff]
  exact Iff.rfl

theorem isInitial_iff : isInitial c = true ↔ Opens c := by
  show (c.isUpper || c.isLower || c == '_') = true ↔ _
  rw [Bool.or_eq_true, Bool.or_eq_true, isUpper_iff_toNat, isLower_iff_toNat, beq_iff_eq]
  exact or_assoc

theorem isSubsequent_iff : isSubsequent c = true ↔ Continues c := by
  show (c.isAlpha || c.isDigit || c == '_' || c == '$') = true ↔ _
  rw [Continues, ← isInitial_iff, isInitial]
  simp only [Bool.or_eq_true, beq_iff_eq, Char.isDigit_iff_toNat]
  tauto

end

theorem isColumn_iff {s : String} : isColumn s = true ↔ IsName s := by
  rw [isColumn, IsName]
  cases s.toList with
  | nil => simp [isPlain]
  | cons c cs => simp [isPlain, isInitial_iff, isSubsequent_iff]

theorem Continues.toNat_lt {c : Char} (h : Continues c) : c.toNat < 0x80 := by
  rcases h with (h | h | rfl) | h | rfl
  · omega
  · omega
  · decide
  · omega
  · decide

section
variable {s : String} (h : IsName s)
include h

theorem IsName.continues_of_mem {c : Char} (hc : c ∈ s.toList) : Continues c :=
  isSubsequent_iff.1 (isSubsequent_of_mem (isColumn_iff.2 h) hc)

theorem IsName.dot_not_mem : '.' ∉ s.toList :=
  Identifier.dot_not_mem (isColumn_iff.2 h)

end

theorem toList_dotted (a b : String) : (a ++ "." ++ b).toList = a.toList ++ '.' :: b.toList := by
  simp

theorem isTable_iff_isName {s : String} : isTable s = true ↔
    IsName s ∨ ∃ a b, s = a ++ "." ++ b ∧ IsName a ∧ IsName b := by
  rw [isTable_iff, ← isColumn_iff]
  refine or_congr Iff.rfl ⟨?_, ?_⟩
  · rintro ⟨a, b, hs, ha, hb⟩
    refine ⟨String.ofList a, String.ofList b, ?_, isColumn_iff.1 ?_, isColumn_iff.1 ?_⟩
    · rw [← String.toList_inj, toList_dotted, hs, String.toList_ofList, String.toList_ofList]
    · rwa [isColumn, String.toList_ofList]
    · rwa [isColumn, String.toList_ofList]
  · rintro ⟨a, b, rfl, ha, hb⟩
    exact ⟨a.toList, b.toList, toList_dotted a b, isColumn_iff.2 ha, isColumn_iff.2 hb⟩

theorem eq_of_schema_eq {a b a' b' : String} (ha : IsName a) (ha' : IsName a')
    (h : a ++ "." ++ b = a' ++ "." ++ b') : a = a' ∧ b = b' := by
  rw [← String.toList_inj, toList_dotted, toList_dotted] at h
  obtain ⟨hs, ht⟩ := eq_of_append_cons_eq ha.dot_not_mem ha'.dot_not_mem h
  exact ⟨String.toList_inj.1 hs, String.toList_inj.1 ht⟩

/-- What stands behind the dot starts after the last one, so the table may have a dot itself. -/
theorem eq_of_qualified_eq {t c t' c' : String} (hc : IsName c) (hc' : IsName c')
    (h : t ++ "." ++ c = t' ++ "." ++ c') : t = t' ∧ c = c' := by
  have hback : c.toList.reverse ++ '.' :: t.toList.reverse =
      c'.toList.reverse ++ '.' :: t'.toList.reverse := by
    rw [← String.toList_inj, toList_dotted, toList_dotted] at h
    simpa using congrArg List.reverse h
  obtain ⟨hcs, hts⟩ := eq_of_append_cons_eq (mt List.mem_reverse.1 hc.dot_not_mem)
    (mt List.mem_reverse.1 hc'.dot_not_mem) hback
  exact ⟨String.toList_inj.1 (List.reverse_inj.1 hts), String.toList_inj.1 (List.reverse_inj.1 hcs)⟩

end Identifier

/-! ## Checks -/

section
variable {s : String}

theorem checkColumn_eq_ok_iff : checkColumn s = .ok () ↔ Identifier.IsName s := by
  rw [← Identifier.isColumn_iff, checkColumn]
  split <;> simp [*]

theorem checkColumn_eq_error_iff {e : Refusal} :
    checkColumn s = .error e ↔ ¬ Identifier.IsName s ∧ e = .invalidIdentifier s := by
  rw [← Identifier.isColumn_iff, checkColumn]
  split <;> simp [*, eq_comm]

theorem checkTable_eq_ok_iff : checkTable s = .ok () ↔ Identifier.isTable s = true := by
  rw [checkTable]
  split <;> simp [*]

theorem checkTable_eq_error_iff {e : Refusal} :
    checkTable s = .error e ↔ ¬ Identifier.isTable s = true ∧ e = .invalidIdentifier s := by
  rw [checkTable]
  split <;> simp [*, eq_comm]

end

theorem checkColumn_of_mem {s : String} {c : Char} (hm : c ∈ s.toList)
    (hc : c = '\n' ∨ c = '.' ∨ 0x80 ≤ c.toNat) : checkColumn s = .error (.invalidIdentifier s) := by
  refine checkColumn_eq_error_iff.2 ⟨fun hs => ?_, rfl⟩
  have hcont := hs.continues_of_mem hm
  rcases hc with rfl | rfl | hc
  · exact absurd (Identifier.isSubsequent_iff.2 hcont) (by decide)
  · exact hs.dot_not_mem hm
  · exact absurd hcont.toNat_lt (Nat.not_lt.2 hc)

theorem checkTable_iff_split {s : String} : checkTable s = .ok () ↔ checkColumn s = .ok () ∨
    ∃! p : String × String, s = p.1 ++ "." ++ p.2 ∧
      checkColumn p.1 = .ok () ∧ checkColumn p.2 = .ok () := by
  rw [checkTable_eq_ok_iff, Identifier.isTable_iff_isName]
  simp only [checkColumn_eq_ok_iff]
  refine or_congr Iff.rfl ⟨?_, ?_⟩
  · rintro ⟨a, b, rfl, ha, hb⟩
    refine ⟨(a, b), ⟨rfl, ha, hb⟩, ?_⟩
    rintro ⟨a', b'⟩ ⟨h, ha', _⟩
    obtain ⟨rfl, rfl⟩ := Identifier.eq_of_schema_eq ha ha' h
    rfl
  · rintro ⟨⟨a, b⟩, h, _⟩
    exact ⟨a, b, h⟩

theorem ColumnRef.isName_of_checked {table column : String} {r : ColumnRef}
    (h : checked table column = .ok r) : Identifier.IsName column := by
  obtain ⟨_, _, h⟩ := bind_eq_ok.1 h
  obtain ⟨_, hc, _⟩ := bind_eq_ok.1 h
  exact checkColumn_eq_ok_iff.1 hc

/-! ## Columns in SQL text -/

namespace Sql.Build

section
variable {b b' : Builder} {target target' : ColumnRef} {text : String}

theorem eq_columnText_of_run (h : ((column target).run b).1 = .ok text) :
    Identifier.IsName target.column ∧ text = columnText b.options.qualify target := by
  cases hn : isNameable b.options.qualify target with
  | true =>
    rw [run_column hn] at h
    exact ⟨Identifier.isColumn_iff.1 (isNameable_iff.1 hn).1, (Except.ok.inj h).symm⟩
  | false =>
    obtain ⟨e, he⟩ := run_column_error hn
    rw [he] at h
    cases h

theorem eq_of_run_column (hq : b.options.qualify = true) (hq' : b'.options.qualify = true)
    (h : ((column target).run b).1 = .ok text) (h' : ((column target').run b').1 = .ok text) :
    target = target' := by
  obtain ⟨hc, htext⟩ := eq_columnText_of_run h
  obtain ⟨hc', htext'⟩ := eq_columnText_of_run h'
  rw [hq] at htext
  rw [hq'] at htext'
  obtain ⟨t, c⟩ := target
  obtain ⟨t', c'⟩ := target'
  obtain ⟨rfl, rfl⟩ := Identifier.eq_of_qualified_eq hc hc' (htext.symm.trans htext')
  rfl

end

end Sql.Build

namespace Identifier

/-- **Names stay apart.** A column name is accepted exactly if the grammar has it, and a table name if
it is a column name or two of them around a dot, which can be split in one way only. A name that is
refused is reported as it is. Accepted pairs of a table and a column are written with a dot between
them as different texts, and so are qualified columns in SQL text. -/
theorem names_unambiguous :
    (∀ s, (checkColumn s = .ok () ↔ IsName s) ∧
      (∀ e, checkColumn s = .error e → e = .invalidIdentifier s) ∧
      ∀ c ∈ s.toList, c = '\n' ∨ c = '.' ∨ 0x80 ≤ c.toNat →
        checkColumn s = .error (.invalidIdentifier s)) ∧
    (∀ s, (checkTable s = .ok () ↔ checkColumn s = .ok () ∨
        ∃! p : String × String, s = p.1 ++ "." ++ p.2 ∧
          checkColumn p.1 = .ok () ∧ checkColumn p.2 = .ok ()) ∧
      ∀ e, checkTable s = .error e → e = .invalidIdentifier s) ∧
    (∀ t c t' c' r r', ColumnRef.checked t c = .ok r → ColumnRef.checked t' c' = .ok r' →
      t ++ "." ++ c = t' ++ "." ++ c' → t = t' ∧ c = c') ∧
    ∀ (b b' : Sql.Builder) (target target' : ColumnRef) (text : String),
      b.options.qualify = true → b'.options.qualify = true →
      ((Sql.Build.column target).run b).1 = .ok text →
      ((Sql.Build.column target').run b').1 = .ok text → target = target' := by
  refine ⟨fun s => ⟨checkColumn_eq_ok_iff, ?_, ?_⟩, fun s => ⟨checkTable_iff_split, ?_⟩, ?_, ?_⟩
  · intro e h
    exact (checkColumn_eq_error_iff.1 h).2
  · intro c hm hc
    exact checkColumn_of_mem hm hc
  · intro e h
    exact (checkTable_eq_error_iff.1 h).2
  · intro t c t' c' r r' hr hr' h
    exact eq_of_qualified_eq (ColumnRef.isName_of_checked hr) (ColumnRef.isName_of_checked hr') h
  · intro b b' target target' text hq hq' h h'
    exact Sql.Build.eq_of_run_column hq hq' h h'

theorem names_unambiguous_schema :
    checkColumn "email\n" = .error (.invalidIdentifier "email\n") ∧
    checkTable "public.users" = .ok () ∧
    (∀ t c r, ColumnRef.checked t c = .ok r → t ++ "." ++ c = "public.users.email" →
      t = "public.users" ∧ c = "email") ∧
    ∃ text, ((Sql.Build.column ⟨"public.users", "email"⟩).run (.start { qualify := true })).1 = .ok text ∧
      ∀ b target, b.options.qualify = true → ((Sql.Build.column target).run b).1 = .ok text →
        target = ⟨"public.users", "email"⟩ := by
  obtain ⟨hcolumn, htable, hpair, htarget⟩ := names_unambiguous
  have hchecked : ColumnRef.checked "public.users" "email" = .ok ⟨"public.users", "email"⟩ := rfl
  have htext : ((Sql.Build.column ⟨"public.users", "email"⟩).run (.start { qualify := true })).1 =
      .ok "public.users.email" := rfl
  refine ⟨(hcolumn _).2.2 '\n' (by decide) (.inl rfl), (htable _).1.2 (.inr ?_), ?_, _, htext, ?_⟩
  · refine ⟨("public", "users"), ⟨rfl, rfl, rfl⟩, ?_⟩
    rintro ⟨a, b⟩ ⟨h, ha, _⟩
    have hpublic : checkColumn "public" = .ok () := rfl
    have hsplit : "public" ++ "." ++ "users" = a ++ "." ++ b := h
    obtain ⟨rfl, rfl⟩ :=
      eq_of_schema_eq (checkColumn_eq_ok_iff.1 hpublic) (checkColumn_eq_ok_iff.1 ha) hsplit
    rfl
  · intro t c r hr h
    exact hpair _ _ _ _ _ _ hr hchecked h
  · intro b target hb h
    exact htarget b _ target _ _ hb rfl h htext

end Identifier

end EncryptedColumns
