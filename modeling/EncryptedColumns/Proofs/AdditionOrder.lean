import Mathlib.Data.List.Perm.Basic
import EncryptedColumns.Proofs.Additions

/-!
# The order of additions

A registry stands in the order of its names, whatever the order was in which they came.
Calls on different columns can therefore be exchanged, also where one of them is refused
or is the first to name its table, and a run of calls leads to the same registry as any
other in which the calls on each column are the same and in the same order.
-/

namespace EncryptedColumns

/-! ## Maps as what is found in them -/

namespace NameMap

variable {α : Type}

theorem nodup_entries (m : NameMap α) : m.entries.Nodup := by
  apply m.ascending.imp
  intro a b hlt he
  rw [he] at hlt
  exact String.lt_irrefl _ hlt

theorem eq_of_find? {m m' : NameMap α} (h : ∀ name, m.find? name = m'.find? name) : m = m' := by
  have hmem : ∀ e, e ∈ m.entries ↔ e ∈ m'.entries := by
    intro e
    rw [← find?_eq_some_iff, ← find?_eq_some_iff, h]
  have hperm := (List.perm_ext_iff_of_nodup m.nodup_entries m'.nodup_entries).2 hmem
  apply ext
  apply hperm.eq_of_pairwise _ m.ascending m'.ascending
  intro a b _ _ hab hba
  exact absurd hba (String.lt_asymm hab)

theorem insert_insert (m : NameMap α) (name : String) (a b : α) :
    (m.insert name a).insert name b = m.insert name b := by
  apply eq_of_find?
  intro key
  simp only [find?_insert]
  by_cases h : name = key
  · simp [h]
  · simp [h]

theorem insert_comm (m : NameMap α) {n k : String} (h : n ≠ k) (a b : α) :
    (m.insert n a).insert k b = (m.insert k b).insert n a := by
  apply eq_of_find?
  intro key
  simp only [find?_insert]
  by_cases hk : k = key
  · subst hk
    simp [h]
  · simp [hk]

end NameMap

namespace Registry

/-! ## Calls on different columns -/

theorem insert_insert_self (r : Registry) (table c c' : String) (s s' : ColumnSpec) :
    (r.insert table c s).insert table c' s' =
      ⟨r.version, r.tables.insert table ((((r.table? table).getD ∅).insert c s).insert c' s')⟩ := by
  rw [Registry.insert, table?_insert, if_pos rfl]
  simp only [Registry.insert, NameMap.insert_insert, Option.getD_some]

theorem insert_insert_of_ne (r : Registry) {t t' : String} (h : t ≠ t') (c c' : String)
    (s s' : ColumnSpec) :
    (r.insert t c s).insert t' c' s' =
      ⟨r.version, (r.tables.insert t (((r.table? t).getD ∅).insert c s)).insert t'
        (((r.table? t').getD ∅).insert c' s')⟩ := by
  rw [Registry.insert, table?_insert, if_neg h]
  rfl

theorem insert_comm (r : Registry) {t c t' c' : String} (h : ¬ (t = t' ∧ c = c')) (s s' : ColumnSpec) :
    (r.insert t c s).insert t' c' s' = (r.insert t' c' s').insert t c s := by
  by_cases ht : t = t'
  · subst ht
    have hc : c ≠ c' := fun hc => h ⟨rfl, hc⟩
    rw [insert_insert_self, insert_insert_self, NameMap.insert_comm _ hc]
  · rw [insert_insert_of_ne r ht, insert_insert_of_ne r (Ne.symm ht), NameMap.insert_comm _ ht]

namespace Addition

theorem isOn_iff {a : Addition} {table column : String} :
    a.isOn table column = true ↔ a.table = table ∧ a.column = column := by
  simp [isOn]

theorem run_comm {a b : Addition} (h : b.isOn a.table a.column = false) (r : Registry) :
    (b.run (a.run r).2).2 = (a.run (b.run r).2).2 := by
  cases ha : a.isAccepted with
  | false =>
    obtain ⟨name, hr⟩ := run_of_not_isAccepted ha r
    obtain ⟨name', hr'⟩ := run_of_not_isAccepted ha (b.run r).2
    rw [hr, hr']
  | true =>
    cases hb : b.isAccepted with
    | false =>
      obtain ⟨name, hr⟩ := run_of_not_isAccepted hb r
      obtain ⟨name', hr'⟩ := run_of_not_isAccepted hb (a.run r).2
      rw [hr, hr']
    | true =>
      have hne : ¬ (a.table = b.table ∧ a.column = b.column) := by
        intro he
        rw [isOn_iff.2 ⟨he.1.symm, he.2.symm⟩] at h
        cases h
      simp only [run_of_isAccepted ha, run_of_isAccepted hb]
      exact insert_comm r hne a.spec b.spec

end Addition

theorem addAll_middle {a : Addition} {us : List Addition}
    (h : ∀ b ∈ us, b.isOn a.table a.column = false) (vs : List Addition) (r : Registry) :
    addAll (us ++ a :: vs) r = addAll (us ++ vs) (a.run r).2 := by
  induction us generalizing r with
  | nil => rfl
  | cons b us ih =>
    obtain ⟨hb, hus⟩ := List.forall_mem_cons.1 h
    show addAll (us ++ a :: vs) (b.run r).2 = addAll (us ++ vs) (b.run (a.run r).2).2
    rw [ih hus, Addition.run_comm hb]

/-- The calls on each column are the same in both runs, and come in the same order. -/
def SameCalls (calls calls' : List Addition) : Prop :=
  ∀ table column, calls.filter (·.isOn table column) = calls'.filter (·.isOn table column)

namespace SameCalls

theorem of_nil {calls : List Addition} (h : SameCalls [] calls) : calls = [] := by
  cases calls with
  | nil => rfl
  | cons a as =>
    have hon := h a.table a.column
    rw [List.filter_cons, if_pos (Addition.isOn_iff.2 ⟨rfl, rfl⟩)] at hon
    cases hon

theorem exists_append {a : Addition} {as calls : List Addition} (h : SameCalls (a :: as) calls) :
    ∃ us vs, calls = us ++ a :: vs ∧ (∀ b ∈ us, b.isOn a.table a.column = false) ∧
      SameCalls as (us ++ vs) := by
  have hon := h a.table a.column
  rw [List.filter_cons, if_pos (Addition.isOn_iff.2 ⟨rfl, rfl⟩)] at hon
  obtain ⟨us, vs, rfl, hus, _, hvs⟩ := List.filter_eq_cons_iff.1 hon.symm
  have hother : ∀ b ∈ us, b.isOn a.table a.column = false := by
    intro b hb
    simpa using hus b hb
  refine ⟨us, vs, rfl, hother, fun table column => ?_⟩
  have hfilter := h table column
  rw [List.filter_append, List.filter_cons, List.filter_cons] at hfilter
  rw [List.filter_append]
  by_cases ha : a.isOn table column = true
  · -- for the column of `a` nothing of `us` is left over, and `a` comes first
    obtain ⟨rfl, rfl⟩ := Addition.isOn_iff.1 ha
    have hnone : us.filter (·.isOn a.table a.column) = [] := by
      rw [List.filter_eq_nil_iff]
      intro b hb
      simp [hother b hb]
    rw [if_pos ha, if_pos ha, hnone, List.nil_append] at hfilter
    rw [hnone, List.nil_append]
    exact (List.cons.inj hfilter).2
  · rw [if_neg ha, if_neg ha] at hfilter
    exact hfilter

theorem perm {calls calls' : List Addition} (h : SameCalls calls calls') : calls.Perm calls' := by
  induction calls generalizing calls' with
  | nil => rw [h.of_nil]
  | cons a as ih =>
    obtain ⟨us, vs, rfl, _, hrest⟩ := h.exists_append
    exact ((ih hrest).cons a).trans List.perm_middle.symm

theorem addAll_eq {calls calls' : List Addition} (h : SameCalls calls calls') (r : Registry) :
    addAll calls r = addAll calls' r := by
  -- on the first run, whose first call moves to the front of the second
  induction calls generalizing calls' r with
  | nil => rw [h.of_nil]
  | cons a as ih =>
    obtain ⟨us, vs, rfl, hus, hrest⟩ := h.exists_append
    rw [addAll_middle hus]
    exact ih hrest (a.run r).2

end SameCalls

/-- **The order of registration does not matter.** Two runs in which the calls on each column are the
same and in the same order lead to the same registry, so to the same statements, or the same
refusal of them, and to the same document. Calls on different columns may come in any order. -/
theorem addAll_of_sameCalls {calls calls' : List Addition} (h : SameCalls calls calls')
    (start : Registry) :
    addAll calls start = addAll calls' start ∧
    (addAll calls start).setupStatements = (addAll calls' start).setupStatements ∧
    (addAll calls start).constraintStatements = (addAll calls' start).constraintStatements ∧
    (addAll calls start).migrationStatements = (addAll calls' start).migrationStatements ∧
    (addAll calls start).write = (addAll calls' start).write := by
  rw [h.addAll_eq start]
  exact ⟨rfl, rfl, rfl, rfl, rfl⟩

def shuffledCalls : List Addition :=
  [⟨"public.users", "age", { cast := .smallInt }⟩, ⟨"a.b.c", "name", {}⟩,
    ⟨"users", "name", { cast := .int }⟩, ⟨"users", "name", { cast := .boolean }⟩, ⟨"users", "na me", {}⟩]

theorem addAll_of_sameCalls_shuffled :
    SameCalls userCalls shuffledCalls ∧ addAll userCalls .empty = addAll shuffledCalls .empty ∧
      (addAll shuffledCalls .empty).column "users" "name" = .ok { cast := .boolean } := by
  have h : SameCalls userCalls shuffledCalls := by
    intro table column
    by_cases ht : "users" = table
    · subst ht
      by_cases hc : "name" = column
      · subst hc
        simp [userCalls, shuffledCalls, Addition.isOn]
      · simp [userCalls, shuffledCalls, Addition.isOn, List.filter_cons, hc]
    · simp [userCalls, shuffledCalls, Addition.isOn, List.filter_cons, ht]
  exact ⟨h, (addAll_of_sameCalls h .empty).1, rfl⟩

end Registry

end EncryptedColumns
