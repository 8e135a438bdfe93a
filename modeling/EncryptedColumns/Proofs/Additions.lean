import Mathlib.Data.List.Basic
import EncryptedColumns.Proofs.Columns
import EncryptedColumns.Registry.Access
import EncryptedColumns.Registry.Document
import EncryptedColumns.Registry.Migration

/-!
# Adding columns

A registry that starts empty or from a document, and then has columns added to it,
is valid at every moment. A call that is refused changes nothing, and a column is
found as the last call that succeeded has left it.
-/

namespace EncryptedColumns.Registry

/-! ## Valid registries -/

structure IsValid (r : Registry) : Prop where
  version : r.version = currentVersion
  names : r.NamesChecked

theorem validate_eq_ok_iff {r : Registry} : r.validate = .ok () ↔ r.IsValid := by
  rw [validate]
  by_cases hv : r.version = currentVersion
  · rw [if_neg (not_not_intro hv)]
    show discard (r.walk fun _ => ()) = .ok () ↔ _
    constructor
    · intro h
      obtain ⟨_, hwalk, _⟩ := bind_eq_ok.1 h
      exact ⟨hv, (walk_eq_ok_iff.1 hwalk).1⟩
    · intro h
      rw [walk_eq_ok_iff.2 ⟨h.names, rfl⟩]
      rfl
  · rw [if_pos hv]
    constructor
    · intro h; cases h
    · intro h; exact absurd h.version hv

/-- Where a run of calls starts. -/
inductive IsInitial : Registry → Prop
  | empty : IsInitial .empty
  | document {text : String} {r : Registry} : ofString text = .ok r → IsInitial r

theorem ofString_eq_ok_iff {text : String} {r : Registry} :
    ofString text = .ok r ↔ reader.readAll (Bytes.ofString text) = .ok r ∧ r.IsValid := by
  rw [ofString, ofBytes]
  constructor
  · intro h
    split at h
    · cases h
    · rename_i hr
      obtain ⟨u, hu, h⟩ := bind_eq_ok.1 h
      cases h
      exact ⟨hr, validate_eq_ok_iff.1 hu⟩
  · intro h
    obtain ⟨hr, hv⟩ := h
    rw [hr]
    exact bind_eq_ok.2 ⟨(), validate_eq_ok_iff.2 hv, rfl⟩

theorem IsInitial.isValid {r : Registry} (h : r.IsInitial) : r.IsValid := by
  cases h with
  | empty => exact ⟨rfl, fun t ht => nomatch ht⟩
  | document h => exact (ofString_eq_ok_iff.1 h).2

section
variable {r : Registry} (hn : r.NamesChecked)
include hn

theorem setupStatements_of_namesChecked : ∃ out, r.setupStatements = .ok out := by
  rw [setupStatements, walk_eq_ok_iff.2 ⟨hn, rfl⟩]
  exact ⟨_, rfl⟩

theorem constraintStatements_of_namesChecked : ∃ out, r.constraintStatements = .ok out := by
  exact ⟨_, walk_eq_ok_iff.2 ⟨hn, rfl⟩⟩

theorem migrationStatements_of_namesChecked : ∃ out, r.migrationStatements = .ok out := by
  obtain ⟨setup, hs⟩ := setupStatements_of_namesChecked hn
  obtain ⟨constraints, hc⟩ := constraintStatements_of_namesChecked hn
  rw [migrationStatements, hs, hc]
  exact ⟨_, rfl⟩

end

/-! ## Inserting -/

theorem table?_insert (r : Registry) (table column name : String) (spec : ColumnSpec) :
    (r.insert table column spec).table? name =
      if table = name then some (((r.table? table).getD ∅).insert column spec) else r.table? name :=
  r.tables.find?_insert table name _

theorem column_insert (r : Registry) (table column t c : String) (spec : ColumnSpec) :
    (r.insert table column spec).column t c =
      if table = t ∧ column = c then .ok spec else r.column t c := by
  unfold Registry.column
  rw [table?_insert]
  by_cases ht : table = t
  · subst ht
    rw [if_pos rfl, Option.bind_some, NameMap.find?_insert]
    by_cases hc : column = c
    · rw [if_pos hc, if_pos ⟨rfl, hc⟩]
    · rw [if_neg hc, if_neg fun h => hc h.2]
      cases r.table? table with
      | none => rfl
      | some specs => rfl
  · rw [if_neg ht, if_neg fun h => ht h.1]

theorem mem_insert {r : Registry} {table column : String} {spec : ColumnSpec} {t : String × TableSpec}
    (ht : t ∈ (r.insert table column spec).tables.entries) {c : String × ColumnSpec}
    (hc : c ∈ t.2.entries) :
    c = (column, spec) ∨ ∃ specs, (t.1, specs) ∈ r.tables.entries ∧ c ∈ specs.entries := by
  rcases NameMap.mem_insertEntry ht with rfl | ht
  · rcases NameMap.mem_insertEntry hc with rfl | hc
    · exact .inl rfl
    · -- the column was in the table before, so the table was there
      cases hs : r.table? table with
      | none => rw [hs] at hc; cases hc
      | some specs =>
        rw [hs] at hc
        exact .inr ⟨specs, NameMap.find?_eq_some_iff.1 hs, hc⟩
  · exact .inr ⟨t.2, ht, hc⟩

theorem NamesChecked.insert {r : Registry} (hr : r.NamesChecked) {table column : String}
    (ht : Identifier.isTable table = true) (hc : Identifier.isColumn column = true) (spec : ColumnSpec) :
    (r.insert table column spec).NamesChecked := by
  intro t hm
  constructor
  · rcases NameMap.mem_insertEntry hm with rfl | hm
    · exact ht
    · exact (hr t hm).1
  · intro c hcm
    rcases mem_insert hm hcm with rfl | ⟨specs, hs, hcm⟩
    · exact hc
    · exact (hr _ hs).2 c hcm

theorem IsValid.insert {r : Registry} (hr : r.IsValid) {table column : String}
    (ht : Identifier.isTable table = true) (hc : Identifier.isColumn column = true) (spec : ColumnSpec) :
    (r.insert table column spec).IsValid :=
  ⟨hr.version, hr.names.insert ht hc spec⟩

/-! ## One call -/

structure Addition where
  table : String
  column : String
  spec : ColumnSpec

namespace Addition

def run (a : Addition) (r : Registry) : Except Refusal Unit × Registry :=
  (Change.add a.table a.column a.spec).run r

def isOn (a : Addition) (table column : String) : Bool :=
  a.table = table && a.column = column

def isAccepted (a : Addition) : Bool :=
  Identifier.isTable a.table && Identifier.isColumn a.column

section
variable {a : Addition}

theorem isAccepted_iff :
    a.isAccepted = true ↔ Identifier.isTable a.table = true ∧ Identifier.isColumn a.column = true :=
  Bool.and_eq_true_iff

theorem run_of_isAccepted (h : a.isAccepted = true) (r : Registry) :
    a.run r = (.ok (), r.insert a.table a.column a.spec) := by
  obtain ⟨ht, hc⟩ := isAccepted_iff.1 h
  rw [run, Change.add, checkTable, if_pos ht, checkColumn, if_pos hc]
  rfl

theorem run_of_not_isAccepted (h : a.isAccepted = false) (r : Registry) :
    ∃ name, a.run r = (.error (.invalidIdentifier name), r) := by
  rw [run, Change.add, checkTable, checkColumn]
  by_cases ht : Identifier.isTable a.table = true
  · have hc : ¬ Identifier.isColumn a.column = true := by simpa [isAccepted, ht] using h
    rw [if_pos ht, if_neg hc]
    exact ⟨a.column, rfl⟩
  · rw [if_neg ht]
    exact ⟨a.table, rfl⟩

theorem run_eq_ok_iff {r : Registry} : (a.run r).1 = .ok () ↔ a.isAccepted = true := by
  cases h : a.isAccepted with
  | true => simp [run_of_isAccepted h]
  | false =>
    obtain ⟨name, hr⟩ := run_of_not_isAccepted h r
    simp [hr]

theorem run_of_ne_ok {r : Registry} (h : (a.run r).1 ≠ .ok ()) : (a.run r).2 = r := by
  have ha : a.isAccepted = false := by simpa [run_eq_ok_iff] using h
  obtain ⟨name, hr⟩ := run_of_not_isAccepted ha r
  rw [hr]

theorem isValid_run {r : Registry} (hr : r.IsValid) : (a.run r).2.IsValid := by
  cases h : a.isAccepted with
  | true =>
    obtain ⟨ht, hc⟩ := isAccepted_iff.1 h
    rw [run_of_isAccepted h]
    exact hr.insert ht hc a.spec
  | false =>
    obtain ⟨name, he⟩ := run_of_not_isAccepted h r
    rw [he]
    exact hr

theorem column_run (r : Registry) (table column : String) :
    (a.run r).2.column table column =
      if a.isAccepted && a.isOn table column then .ok a.spec else r.column table column := by
  cases h : a.isAccepted with
  | true =>
    rw [run_of_isAccepted h, column_insert]
    simp only [isOn, Bool.true_and, Bool.and_eq_true, decide_eq_true_eq]
  | false =>
    obtain ⟨name, he⟩ := run_of_not_isAccepted h r
    rw [he]
    rfl

end

end Addition

/-! ## Runs of calls -/

def addAll : List Addition → Registry → Registry
  | [], r => r
  | a :: as, r => addAll as (a.run r).2

def succeeding : List Addition → Registry → List Addition
  | [], _ => []
  | a :: as, r =>
    match a.run r with
    | (.ok (), r) => a :: succeeding as r
    | (.error _, r) => succeeding as r

def lastAdded? (calls : List Addition) (r : Registry) (table column : String) : Option ColumnSpec :=
  ((succeeding calls r).filter (·.isOn table column)).getLast?.map (·.spec)

theorem succeeding_eq_filter (calls : List Addition) (r : Registry) :
    succeeding calls r = calls.filter (·.isAccepted) := by
  induction calls generalizing r with
  | nil => rfl
  | cons a as ih =>
    rw [succeeding, List.filter_cons]
    cases h : a.isAccepted with
    | true => simp [Addition.run_of_isAccepted h, ih]
    | false =>
      obtain ⟨name, hr⟩ := Addition.run_of_not_isAccepted h r
      simp [hr, ih]

theorem isValid_addAll {r : Registry} (hr : r.IsValid) (calls : List Addition) :
    (addAll calls r).IsValid := by
  induction calls generalizing r with
  | nil => exact hr
  | cons a as ih => exact ih (Addition.isValid_run hr)

theorem lastAdded?_cons (a : Addition) (as : List Addition) (r : Registry) (table column : String) :
    lastAdded? (a :: as) r table column =
      (lastAdded? as (a.run r).2 table column).or
        (if a.isAccepted && a.isOn table column then some a.spec else none) := by
  simp only [lastAdded?, succeeding_eq_filter, List.filter_filter]
  rw [List.filter_cons, Bool.and_comm a.isAccepted]
  by_cases ha : (a.isOn table column && a.isAccepted) = true
  · rw [if_pos ha, if_pos ha, List.getLast?_cons]
    cases List.getLast? _ with
    | none => rfl
    | some b => rfl
  · rw [if_neg ha, if_neg ha, Option.or_none]

theorem column_addAll (calls : List Addition) (r : Registry) (table column : String) :
    (addAll calls r).column table column =
      match lastAdded? calls r table column with
      | some spec => .ok spec
      | none => r.column table column := by
  induction calls generalizing r with
  | nil => rfl
  | cons a as ih =>
    rw [addAll, ih, lastAdded?_cons, Addition.column_run]
    cases lastAdded? as (a.run r).2 table column with
    | some spec => rfl
    | none =>
      rw [Option.none_or]
      cases a.isAccepted && a.isOn table column with
      | true => rfl
      | false => rfl

structure AgreesOn (r r' : Registry) (table column : String) : Prop where
  spec : r.column table column = r'.column table column
  operand : ∀ mode value, r.operand table column mode value = r'.operand table column mode value
  path : ∀ path, r.pathOperand table column path = r'.pathOperand table column path
  decoded : ∀ data, r.decodeColumn table column data = r'.decodeColumn table column data

theorem AgreesOn.of_column {r r' : Registry} {table column : String}
    (h : r.column table column = r'.column table column) : r.AgreesOn r' table column where
  spec := h
  operand _ _ := by simp only [Registry.operand, requireIndex, h]
  path _ := by simp only [Registry.pathOperand, requireIndex, h]
  decoded _ := by simp only [Registry.decodeColumn, h]

theorem lastAdded?_filter (calls : List Addition) (r : Registry) (table column : String) :
    lastAdded? (calls.filter (·.isOn table column)) r table column = lastAdded? calls r table column := by
  have hon : (calls.filter (·.isOn table column)).filter (·.isOn table column) =
      calls.filter (·.isOn table column) := by
    simp only [List.filter_filter, Bool.and_self]
  simp only [lastAdded?, succeeding_eq_filter]
  rw [List.filter_comm, hon, List.filter_comm]

theorem agreesOn_addAll_filter (calls : List Addition) (r : Registry) (table column : String) :
    (addAll calls r).AgreesOn (addAll (calls.filter (·.isOn table column)) r) table column :=
  .of_column (by rw [column_addAll, column_addAll, lastAdded?_filter])

/-- **Registries stay valid, and a column is as the last addition left it.** After any run of calls
the registry is valid and its statements can be made. A call succeeds exactly when both names are
identifiers, and changes nothing otherwise. What a column answers depends on no call on another. -/
theorem addAll_invariant {start : Registry} (h : start.IsInitial) (calls : List Addition) :
    (addAll calls start).validate = .ok () ∧
    (∃ out, (addAll calls start).setupStatements = .ok out) ∧
    (∃ out, (addAll calls start).constraintStatements = .ok out) ∧
    (∃ out, (addAll calls start).migrationStatements = .ok out) ∧
    (∀ a : Addition,
      ((a.run (addAll calls start)).1 = .ok () ↔
        Identifier.isTable a.table = true ∧ Identifier.isColumn a.column = true) ∧
      ((a.run (addAll calls start)).1 ≠ .ok () →
        (a.run (addAll calls start)).2 = addAll calls start)) ∧
    ∀ table column,
      (addAll calls start).column table column =
        (match (lastAdded? calls start table column).or
            ((start.table? table).bind (·.find? column)) with
        | some spec => .ok spec
        | none => .error (.unknownColumn table column)) ∧
      (addAll calls start).AgreesOn (addAll (calls.filter (·.isOn table column)) start) table column := by
  have hv := isValid_addAll h.isValid calls
  refine ⟨validate_eq_ok_iff.2 hv, setupStatements_of_namesChecked hv.names,
    constraintStatements_of_namesChecked hv.names, migrationStatements_of_namesChecked hv.names,
    fun a => ⟨Addition.run_eq_ok_iff.trans Addition.isAccepted_iff, Addition.run_of_ne_ok⟩,
    fun table column => ⟨?_, agreesOn_addAll_filter calls start table column⟩⟩
  rw [column_addAll]
  cases lastAdded? calls start table column with
  | some spec => rfl
  | none => rfl

def users : String :=
  "\x7b\"v\":1,\"tables\":\x7b\"users\":\x7b\"name\":\x7b\x7d\x7d\x7d\x7d"

def userCalls : List Addition :=
  [⟨"users", "name", { cast := .int }⟩, ⟨"public.users", "age", { cast := .smallInt }⟩,
    ⟨"users", "na me", {}⟩, ⟨"users", "name", { cast := .boolean }⟩, ⟨"a.b.c", "name", {}⟩]

theorem addAll_invariant_users :
    ∃ start, ofString users = .ok start ∧ (addAll userCalls start).validate = .ok () ∧
      (addAll userCalls start).column "users" "name" = .ok { cast := .boolean } ∧
      (addAll userCalls start).column "a.b.c" "name" = .error (.unknownColumn "a.b.c" "name") := by
  have hload : ofString users = .ok (empty.insert "users" "name" {}) := by decide +kernel
  obtain ⟨hvalid, _, _, _, _, hcolumn⟩ := addAll_invariant (.document hload) userCalls
  refine ⟨_, hload, hvalid, ?_, ?_⟩
  · exact (hcolumn "users" "name").1.trans rfl
  · exact (hcolumn "a.b.c" "name").1.trans rfl

end EncryptedColumns.Registry
