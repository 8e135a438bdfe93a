import Mathlib.Data.Set.Card
import EncryptedColumns.Proofs.FragmentShapes
import EncryptedColumns.Proofs.SetupStatements
import EncryptedColumns.Proofs.Traversals

/-!
# Migrations cover the registry

A migration has one statement for every index and one for every column, the columns without an
index included, and three more. Names are spliced into the statements as they are, but what
has been checked has no blank, so that a statement still tells the names that it was made of and
no two statements are the same.
-/

namespace EncryptedColumns

/-! ## Constraints -/

namespace Sql

def constraintName (column : String) : String := column ++ "_encrypted_check"

def constraintShape (table : List Token) (column : String) : List Token :=
  [.word "ALTER", .symbol ' ', .word "TABLE", .symbol ' '] ++ table ++
    [.symbol ' ', .word "ADD", .symbol ' ', .word "CONSTRAINT", .symbol ' ', .word (constraintName column),
      .symbol ' ', .word "CHECK", .symbol ' ', .symbol '(', .symbol ' '] ++
    callShape "cs_check_encrypted_v1" [.word column] ++ [.symbol ' ', .symbol ')', .symbol ';']

theorem constraintName_injective : Function.Injective constraintName := by
  intro column column' h
  have hlists := congrArg String.toList h
  simp only [constraintName, String.toList_append] at hlists
  exact String.toList_inj.1 (List.append_cancel_right hlists)

theorem isColumn_constraintName {column : String} (h : Identifier.isColumn column = true) :
    Identifier.isColumn (constraintName column) = true := by
  have hsuffix : "_encrypted_check".toList.all Identifier.isSubsequent = true := by decide
  rw [Identifier.isColumn, constraintName, String.toList_append]
  rw [Identifier.isColumn] at h
  cases hc : column.toList with
  | nil => rw [hc] at h; cases h
  | cons c cs =>
    rw [hc, Identifier.isPlain, Bool.and_eq_true] at h
    rw [List.cons_append, Identifier.isPlain, List.all_append, h.1, h.2, hsuffix]
    rfl

theorem addConstraint_eq (table column : String) :
    addConstraint table column =
      "ALTER TABLE " ++ table ++ " ADD CONSTRAINT " ++ constraintName column ++
        " CHECK ( cs_check_encrypted_v1(" ++ column ++ ") );" := by
  unfold addConstraint constraintName
  apply String.toList_inj.1
  simp

section
variable {table column : String} (ht : Identifier.isTable table = true)
  (hc : Identifier.isColumn column = true)
include ht hc

theorem tokens_addConstraint :
    tokens (addConstraint table column) = constraintShape (dotted (Identifier.parts table)) column := by
  have halter : tokens "ALTER TABLE " = [.word "ALTER", .symbol ' ', .word "TABLE", .symbol ' '] := rfl
  have hadd : tokens " ADD CONSTRAINT " =
      [.symbol ' ', .word "ADD", .symbol ' ', .word "CONSTRAINT", .symbol ' '] := rfl
  have hcheck : tokens " CHECK ( cs_check_encrypted_v1(" =
      [.symbol ' ', .word "CHECK", .symbol ' ', .symbol '(', .symbol ' ', .word "cs_check_encrypted_v1",
        .symbol '('] := rfl
  have hend : tokens ") );" = [.symbol ')', .symbol ' ', .symbol ')', .symbol ';'] := rfl
  rw [addConstraint_eq, tokens_append_of_startsToken (by decide),
    tokens_append_separator " CHECK ( cs_check_encrypted_v1(" (by decide) (by decide),
    tokens_append_separator " ADD CONSTRAINT " (by decide) (by decide),
    tokens_append_of_endsToken (by decide), tokens_of_isTable ht,
    tokens_of_isPlain (isColumn_constraintName hc), tokens_of_isPlain hc, halter, hadd, hcheck, hend]
  simp [constraintShape, callShape]

/-- No name has a blank, so the table and the name of the constraint end at the first one behind them. -/
theorem eq_of_addConstraint_eq {table' column' : String} (ht' : Identifier.isTable table' = true)
    (hc' : Identifier.isColumn column' = true)
    (h : addConstraint table column = addConstraint table' column') :
    table = table' ∧ column = column' := by
  have hblank {name : String} (h : Identifier.isTable name = true ∨ Identifier.isColumn name = true) :
      ' ' ∉ name.toList := fun hm => Identifier.ne_of_mem h (by decide) (by decide) _ hm rfl
  have htext (t c : String) : (addConstraint t c).toList = "ALTER TABLE ".toList ++
      (t.toList ++ ' ' :: ("ADD CONSTRAINT ".toList ++ ((constraintName c).toList ++
        ' ' :: ("CHECK ( cs_check_encrypted_v1(" ++ c ++ ") );").toList))) := by
    simp [addConstraint_eq]
  have hlists := congrArg String.toList h
  rw [htext, htext] at hlists
  obtain ⟨htable, hrest⟩ := eq_of_append_cons_eq (hblank (.inl ht)) (hblank (.inl ht'))
    (List.append_cancel_left hlists)
  obtain ⟨hname, _⟩ := eq_of_append_cons_eq (hblank (.inr (isColumn_constraintName hc)))
    (hblank (.inr (isColumn_constraintName hc'))) (List.append_cancel_left hrest)
  exact ⟨String.toList_inj.1 htable, constraintName_injective (String.toList_inj.1 hname)⟩

end

theorem head?_addConstraint (table column : String) :
    (addConstraint table column).toList.head? = some 'A' := by
  unfold addConstraint
  simp

theorem readIndexCall_of_head? {s : String} (h : s.toList.head? = some 'A') : readIndexCall s = none := by
  cases hs : s.toList with
  | nil => rw [hs] at h; cases h
  | cons c cs =>
    rw [hs] at h
    cases h
    unfold readIndexCall
    rw [hs]
    rfl

end Sql

/-! ## The statements of a registry -/

namespace Registry

theorem mem_entries_iff_column {r : Registry} {e : Entry} :
    e ∈ r.entries ↔ r.column e.table e.column = .ok e.spec :=
  mem_entries_iff.trans column_eq_ok_iff.symm

theorem constraintStatements_eq_ok_iff {r : Registry} {statements : List String} :
    r.constraintStatements = .ok statements ↔ r.NamesChecked ∧
      statements = r.entries.map Entry.constraintStatement := by
  rw [constraintStatements, walk_eq_ok_iff]

theorem migrationStatements_eq_ok_iff {r : Registry} {statements : List String} :
    r.migrationStatements = .ok statements ↔ ∃ setup, r.setupStatements = .ok setup ∧
      statements = setup ++ r.entries.map Entry.constraintStatement ++ [Sql.refreshStatement] := by
  rw [migrationStatements, bind_eq_ok]
  constructor
  · rintro ⟨setup, hs, h⟩
    obtain ⟨constraints, hc, h⟩ := bind_eq_ok.1 h
    cases h
    obtain ⟨_, rfl⟩ := constraintStatements_eq_ok_iff.1 hc
    exact ⟨setup, hs, rfl⟩
  · rintro ⟨setup, hs, rfl⟩
    obtain ⟨hn, _⟩ := setupStatements_eq_ok_iff.1 hs
    exact ⟨setup, hs, bind_eq_ok.2 ⟨_, constraintStatements_eq_ok_iff.2 ⟨hn, rfl⟩, rfl⟩⟩

theorem Entry.Precedes.ne {a b : Entry} (h : a.Precedes b) :
    ¬ (a.table = b.table ∧ a.column = b.column) := by
  rintro ⟨ht, hc⟩
  rw [Entry.Precedes, ht, hc] at h
  simp at h

theorem nodup_entries (r : Registry) : r.entries.Nodup := by
  refine (pairwise_entries r).imp fun h heq => ?_
  subst heq
  exact h.ne ⟨rfl, rfl⟩

theorem Index.Precedes.ne {a b : Index} (h : a.Precedes b) :
    ¬ (a.table = b.table ∧ a.column = b.column ∧ a.mode = b.mode) := by
  rintro ⟨ht, hc, hm⟩
  rw [Index.Precedes, ht, hc, hm] at h
  simp at h

theorem nodup_indexes (r : Registry) : r.indexes.Nodup := by
  refine (pairwise_indexes r).imp fun h heq => ?_
  subst heq
  exact h.ne ⟨rfl, rfl, rfl⟩

/-! ## No statement comes twice -/

theorem indexName_injective : Function.Injective QueryMode.indexName := by
  intro a b h
  cases a <;> cases b <;> simp_all [QueryMode.indexName]

section
variable {r : Registry} (hn : r.NamesChecked)
include hn

theorem nodup_indexStatements : (r.indexes.map Index.statement).Nodup := by
  apply List.Nodup.of_map Sql.readIndexCall
  rw [map_readIndexCall_statement hn]
  refine List.pairwise_map.2 ((pairwise_indexes r).imp fun h heq => h.ne ?_)
  simp only [Index.call_eq, Option.some.injEq, Sql.IndexCall.mk.injEq] at heq
  exact ⟨heq.1, heq.2.1, indexName_injective heq.2.2.1⟩

theorem nodup_constraintStatements : (r.entries.map Entry.constraintStatement).Nodup := by
  refine List.pairwise_map.2 ((pairwise_entries r).imp_of_mem fun ha hb h heq => h.ne ?_)
  obtain ⟨ht, hc⟩ := hn.of_column (mem_entries_iff_column.1 ha)
  obtain ⟨ht', hc'⟩ := hn.of_column (mem_entries_iff_column.1 hb)
  exact Sql.eq_of_addConstraint_eq ht hc ht' hc' heq

theorem nodup_migration : (r.indexes.map Index.statement ++ [Sql.encryptStatement, Sql.activateStatement] ++
    r.entries.map Entry.constraintStatement ++ [Sql.refreshStatement]).Nodup := by
  -- the index calls are those that can be read, the constraints those that start with an A
  have hindex : ∀ s ∈ r.indexes.map Index.statement, Sql.readIndexCall s ≠ none := by
    simp only [List.forall_mem_map]
    intro i hi
    simp [readIndexCall_statement hn hi]
  have hconstraint : ∀ s ∈ r.entries.map Entry.constraintStatement, s.toList.head? = some 'A' := by
    simp only [List.forall_mem_map]
    exact fun e _ => Sql.head?_addConstraint e.table e.column
  have hcalls : ∀ s ∈ [Sql.encryptStatement, Sql.activateStatement, Sql.refreshStatement],
      Sql.readIndexCall s = none := by decide
  have hheads : ∀ s ∈ [Sql.encryptStatement, Sql.activateStatement, Sql.refreshStatement],
      s.toList.head? ≠ some 'A' := by decide
  refine List.nodup_append.2 ⟨List.nodup_append.2 ⟨List.nodup_append.2
    ⟨nodup_indexStatements hn, by decide, ?_⟩, nodup_constraintStatements hn, ?_⟩, by simp, ?_⟩
  · rintro s hs _ hfixed rfl
    exact hindex s hs (hcalls s (List.mem_append_left [Sql.refreshStatement] hfixed))
  · rintro s hs _ hc rfl
    rcases List.mem_append.1 hs with hs | hs
    · exact hindex s hs (Sql.readIndexCall_of_head? (hconstraint s hc))
    · exact hheads s (List.mem_append_left [Sql.refreshStatement] hs) (hconstraint s hc)
  · rintro s hs _ hfixed rfl
    obtain rfl := List.mem_singleton.1 hfixed
    rcases List.mem_append.1 hs with hs | hc
    · rcases List.mem_append.1 hs with hs | hs
      · exact hindex _ hs (hcalls _ (by simp))
      · exact absurd hs (by decide)
    · exact hheads _ (by simp) (hconstraint _ hc)

end

theorem ncard_mem {α : Type} {l : List α} (h : l.Nodup) : {a | a ∈ l}.ncard = l.length := by
  classical
  rw [← List.coe_toFinset, Set.ncard_coe_finset, List.toFinset_card_of_nodup h]

/-- **A migration covers every column and every index once.** It is the setup, then a constraint for
each column in the order of table and column, then the refresh, and no statement comes twice. A
constraint has the tokens of its form, with the table as one or two names and the name of the
constraint made from that of the column, so that no table has two constraints of one name. -/
theorem migrationStatements_covers {r : Registry} {statements : List String}
    (h : r.migrationStatements = .ok statements) :
    ∃ (setup : List String) (columns : List Entry),
      r.setupStatements = .ok setup ∧
      statements = setup ++ columns.map (fun e => Sql.addConstraint e.table e.column) ++
        ["SELECT cs_refresh_encrypt_config();"] ∧
      columns.Pairwise Entry.Precedes ∧
      (∀ e, e ∈ columns ↔ r.column e.table e.column = .ok e.spec) ∧
      statements.length =
        {i : Index | ∃ spec, r.column i.table i.column = .ok spec ∧ spec.cast = i.cast ∧
          spec.indexes.get? i.mode = some i.options}.ncard + 2 +
        {e : Entry | r.column e.table e.column = .ok e.spec}.ncard + 1 ∧
      statements.Nodup ∧
      (∀ e ∈ columns,
        ((Identifier.parts e.table).length = 1 ∨ (Identifier.parts e.table).length = 2) ∧
        (∀ name ∈ Identifier.parts e.table, Identifier.isColumn name = true) ∧
        Identifier.isColumn (e.column ++ "_encrypted_check") = true ∧
        Sql.tokens (Sql.addConstraint e.table e.column) =
          Sql.constraintShape (Sql.dotted (Identifier.parts e.table)) e.column) ∧
      columns.Pairwise fun a b =>
        a.table = b.table → a.column ++ "_encrypted_check" ≠ b.column ++ "_encrypted_check" := by
  obtain ⟨setup, hs, rfl⟩ := migrationStatements_eq_ok_iff.1 h
  obtain ⟨hn, rfl⟩ := setupStatements_eq_ok_iff.1 hs
  refine ⟨_, r.entries, hs, rfl, pairwise_entries r, fun e => mem_entries_iff_column, ?_,
    nodup_migration hn, fun e he => ?_, ?_⟩
  · simp only [← mem_indexes_iff, ← mem_entries_iff_column]
    rw [ncard_mem (nodup_indexes r), ncard_mem (nodup_entries r)]
    simp only [List.length_append, List.length_map, List.length_cons, List.length_nil]
  · obtain ⟨ht, hc⟩ := hn.of_column (mem_entries_iff_column.1 he)
    exact ⟨Identifier.length_parts ht, Identifier.isColumn_of_mem_parts ht,
      Sql.isColumn_constraintName hc, Sql.tokens_addConstraint ht hc⟩
  · refine (pairwise_entries r).imp fun hp ht hname => hp.ne ⟨ht, ?_⟩
    exact Sql.constraintName_injective hname

def clinic : Registry :=
  (empty.insert "public.patients" "born" {}).insert "public.patients" "notes"
    { cast := .jsonb, indexes := { unique := some [], steVec := some [("prefix", .string "it's")] } }

theorem migrationStatements_covers_clinic :
    ∃ statements, clinic.migrationStatements = .ok statements ∧ statements.Nodup ∧
      "ALTER TABLE public.patients ADD CONSTRAINT born_encrypted_check CHECK ( cs_check_encrypted_v1(born) );" ∈
        statements := by
  have hn : clinic.NamesChecked := by
    unfold NamesChecked
    decide +kernel
  have h : clinic.migrationStatements = .ok _ :=
    migrationStatements_eq_ok_iff.2 ⟨_, setupStatements_eq_ok_iff.2 ⟨hn, rfl⟩, rfl⟩
  obtain ⟨setup, columns, _, hall, _, hcolumns, _, hnodup, _⟩ := migrationStatements_covers h
  have hborn : (⟨"public.patients", "born", {}⟩ : Entry) ∈ columns := (hcolumns _).2 rfl
  refine ⟨_, h, hnodup, ?_⟩
  rw [hall]
  simp only [List.mem_append, List.mem_map]
  exact .inl (.inr ⟨_, hborn, by decide +kernel⟩)

end Registry

end EncryptedColumns
