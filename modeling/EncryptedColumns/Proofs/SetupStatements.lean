import EncryptedColumns.Proofs.Columns
import EncryptedColumns.Proofs.Identifiers
import EncryptedColumns.Registry.Migration

/-!
# Setup statements read as SQL

A database takes a string literal to end at the first quote that is not doubled.
Read by that rule alone, the statement for an index is one call with the names, the
cast and the options as its arguments, whatever the options hold.
-/

namespace EncryptedColumns

namespace Sql

/-- Reads on behind the opening quote, up to a quote with no second one behind it. -/
def literalEnd : List Char → Option (List Char × List Char)
  | [] => none
  | '\'' :: '\'' :: cs => (literalEnd cs).map fun (s, rest) => ('\'' :: s, rest)
  | '\'' :: cs => some ([], cs)
  | c :: cs => (literalEnd cs).map fun (s, rest) => (c :: s, rest)

def expect : List Char → List Char → Option (List Char)
  | [], cs => some cs
  | _ :: _, [] => none
  | w :: ws, c :: cs => if w = c then expect ws cs else none

def readLiteral (cs : List Char) : Option (String × List Char) := do
  let cs ← expect ['\''] cs
  let (s, rest) ← literalEnd cs
  return (String.ofList s, rest)

structure IndexCall where
  table : String
  column : String
  index : String
  cast : String
  options : Option String
  deriving DecidableEq

def readIndexCall (statement : String) : Option IndexCall := do
  let cs ← expect "SELECT cs_add_index_v1(".toList statement.toList
  let (table, cs) ← readLiteral cs
  let cs ← expect ", ".toList cs
  let (column, cs) ← readLiteral cs
  let cs ← expect ", ".toList cs
  let (index, cs) ← readLiteral cs
  let cs ← expect ", ".toList cs
  let (cast, cs) ← readLiteral cs
  match expect ", ".toList cs with
  | some cs =>
    let (options, cs) ← readLiteral cs
    if cs = ");".toList then some ⟨table, column, index, cast, some options⟩ else none
  | none => if cs = ");".toList then some ⟨table, column, index, cast, none⟩ else none

theorem expect_append (ws cs : List Char) : expect ws (ws ++ cs) = some cs := by
  induction ws with
  | nil => rfl
  | cons w ws ih => rw [List.cons_append, expect, if_pos rfl, ih]

/-! ## Literals are read back -/

def NoQuote (cs : List Char) : Prop := cs.head? ≠ some '\''

theorem literalEnd_body : ∀ (s : List Char) {rest : List Char}, NoQuote rest →
    literalEnd (s.flatMap (fun c => if c = '\'' then ['\'', '\''] else [c]) ++ '\'' :: rest) =
      some (s, rest)
  | [], rest, hr => by
    cases rest with
    | nil => rfl
    | cons c rest =>
      have hc : c ≠ '\'' := fun h => hr (congrArg some h)
      rw [List.flatMap_nil, List.nil_append, literalEnd]
      intro cs h
      exact hc (List.cons.inj h).1
  | c :: s, rest, hr => by
    have ih := literalEnd_body s hr
    rw [List.flatMap_cons]
    by_cases hc : c = '\''
    · -- two quotes in the body, one quote in the string
      subst hc
      rw [if_pos rfl]
      simp only [List.cons_append, List.nil_append, literalEnd, ih, Option.map_some]
    · rw [if_neg hc, List.singleton_append, List.cons_append, literalEnd, ih]
      · rfl
      · exact fun _ h _ => hc h
      · exact hc

theorem readLiteral_literal (s : String) {rest : List Char} (hr : NoQuote rest) :
    readLiteral ((literal s).toList ++ rest) = some (s, rest) := by
  have hl : (literal s).toList ++ rest = ['\''] ++ (literalBody s ++ '\'' :: rest) := by
    simp [literal]
  rw [hl, readLiteral, expect_append]
  simp only [bind, Option.bind, literalBody, literalEnd_body s.toList hr, pure, String.ofList_toList]

theorem spliced_eq {s : String} (h : ∀ c ∈ s.toList, c ≠ '\'') : spliced s = literal s := by
  have hbody : ∀ cs : List Char, (∀ c ∈ cs, c ≠ '\'') →
      cs.flatMap (fun c => if c = '\'' then ['\'', '\''] else [c]) = cs := by
    intro cs hcs
    induction cs with
    | nil => rfl
    | cons c cs ih =>
      rw [List.flatMap_cons, if_neg (hcs c (List.mem_cons_self ..)),
        ih fun d hd => hcs d (List.mem_cons_of_mem _ hd)]
      rfl
  apply String.toList_inj.1
  simp [spliced, literal, literalBody, hbody _ h]

/-! ## The statement for an index -/

theorem indexName_ne_quote (mode : QueryMode) : ∀ c ∈ mode.indexName.toList, c ≠ '\'' := by
  have h : mode.indexName.toList.all (· != '\'') = true := by cases mode <;> decide
  intro c hc
  simpa using List.all_eq_true.1 h c hc

theorem castName_ne_quote (cast : Cast) : ∀ c ∈ cast.name.toList, c ≠ '\'' := by
  have h : cast.name.toList.all (· != '\'') = true := by cases cast <;> decide
  intro c hc
  simpa using List.all_eq_true.1 h c hc

def optionsText (options : Object) : Option String :=
  if options.isEmpty then none else some (Json.object options).compact

theorem addIndex_eq {table column : String} (ht : ∀ c ∈ table.toList, c ≠ '\'')
    (hc : ∀ c ∈ column.toList, c ≠ '\'') (mode : QueryMode) (cast : Cast) (options : Object) :
    addIndex table column mode cast options =
      "SELECT cs_add_index_v1(" ++ literal table ++ ", " ++ literal column ++ ", " ++
        literal mode.indexName ++ ", " ++ literal cast.name ++
        (match optionsText options with
          | none => ""
          | some o => ", " ++ literal o) ++ ");" := by
  have hoptions : (if options.isEmpty then "" else ", " ++ literal (Json.object options).compact) =
      match optionsText options with
      | none => ""
      | some o => ", " ++ literal o := by
    unfold optionsText
    cases options.isEmpty with
    | true => rfl
    | false => rfl
  unfold addIndex
  rw [hoptions, spliced_eq ht, spliced_eq hc, spliced_eq (indexName_ne_quote mode),
    spliced_eq (castName_ne_quote cast)]

theorem readIndexCall_addIndex {table column : String} (ht : ∀ c ∈ table.toList, c ≠ '\'')
    (hc : ∀ c ∈ column.toList, c ≠ '\'') (mode : QueryMode) (cast : Cast) (options : Object) :
    readIndexCall (addIndex table column mode cast options) =
      some ⟨table, column, mode.indexName, cast.name, optionsText options⟩ := by
  have hcomma (cs : List Char) : NoQuote (", ".toList ++ cs) := by
    intro h
    exact absurd h (by simp)
  have hend : NoQuote ");".toList := by
    intro h
    exact absurd h (by simp)
  rw [addIndex_eq ht hc]
  unfold readIndexCall
  simp only [String.toList_append, List.append_assoc, expect_append,
    readLiteral_literal _ (hcomma _), bind, Option.bind]
  cases optionsText options with
  | none =>
    simp only [String.toList_empty, List.nil_append, readLiteral_literal _ hend]
    rfl
  | some o =>
    simp only [String.toList_append, List.append_assoc, readLiteral_literal _ (hcomma _),
      expect_append, readLiteral_literal _ hend, if_pos]

end Sql

/-! ## The indexes of a registry -/

namespace Registry

structure Index where
  table : String
  column : String
  mode : QueryMode
  cast : Cast
  options : Object

def Index.Precedes (a b : Index) : Prop :=
  a.table < b.table ∨ a.table = b.table ∧
    (a.column < b.column ∨ a.column = b.column ∧
      QueryMode.all.idxOf a.mode < QueryMode.all.idxOf b.mode)

def Index.statement (i : Index) : String :=
  Sql.addIndex i.table i.column i.mode i.cast i.options

/-- The words of the proxy for modes and casts, as they must stand in a call. -/
def Index.call (i : Index) : Sql.IndexCall where
  table := i.table
  column := i.column
  index :=
    match i.mode with
    | .unique => "unique"
    | .matching => "match"
    | .ore => "ore"
    | .steVec => "ste_vec"
  cast :=
    match i.cast with
    | .text => "text"
    | .int => "int"
    | .smallInt => "small_int"
    | .bigInt => "big_int"
    | .boolean => "boolean"
    | .jsonb => "jsonb"
  options := Sql.optionsText i.options

theorem Index.call_eq (i : Index) :
    i.call = ⟨i.table, i.column, i.mode.indexName, i.cast.name, Sql.optionsText i.options⟩ := by
  obtain ⟨_, _, mode, cast, _⟩ := i
  have hmode : (Index.call ⟨"", "", mode, cast, []⟩).index = mode.indexName := by cases mode <;> rfl
  have hcast : (Index.call ⟨"", "", mode, cast, []⟩).cast = cast.name := by cases cast <;> rfl
  exact congrArg₂ (Sql.IndexCall.mk _ _ · · _) hmode hcast

def Entry.index? (e : Entry) (mode : QueryMode) : Option Index :=
  (e.spec.indexes.get? mode).map fun options => ⟨e.table, e.column, mode, e.spec.cast, options⟩

def indexes (r : Registry) : List Index :=
  r.entries.flatMap fun e => QueryMode.all.filterMap e.index?

theorem Entry.index?_eq_some_iff {e : Entry} {mode : QueryMode} {i : Index} :
    e.index? mode = some i ↔
      i.table = e.table ∧ i.column = e.column ∧ i.mode = mode ∧ i.cast = e.spec.cast ∧
        e.spec.indexes.get? mode = some i.options := by
  obtain ⟨table, column, mode', cast, options⟩ := i
  simp only [Entry.index?, Option.map_eq_some_iff, Index.mk.injEq]
  constructor
  · intro h
    obtain ⟨o, ho, rfl, rfl, rfl, rfl, rfl⟩ := h
    exact ⟨rfl, rfl, rfl, rfl, ho⟩
  · intro h
    obtain ⟨rfl, rfl, rfl, rfl, ho⟩ := h
    exact ⟨options, ho, rfl, rfl, rfl, rfl, rfl⟩

theorem Entry.indexStatements_eq (e : Entry) :
    e.indexStatements = (QueryMode.all.filterMap e.index?).map Index.statement := by
  rw [Entry.indexStatements, List.map_filterMap]
  congr 1
  funext mode
  rw [Entry.index?, Option.map_map]
  rfl

theorem mem_indexes_iff {r : Registry} {i : Index} :
    i ∈ r.indexes ↔ ∃ spec, r.column i.table i.column = .ok spec ∧ spec.cast = i.cast ∧
      spec.indexes.get? i.mode = some i.options := by
  simp only [indexes, List.mem_flatMap, List.mem_filterMap, Entry.index?_eq_some_iff]
  constructor
  · intro h
    obtain ⟨e, he, mode, _, ht, hc, rfl, hcast, ho⟩ := h
    refine ⟨e.spec, column_eq_ok_iff.2 ?_, hcast.symm, ho⟩
    rw [ht, hc]
    exact mem_entries_iff.1 he
  · intro h
    obtain ⟨spec, hspec, hcast, ho⟩ := h
    refine ⟨⟨i.table, i.column, spec⟩, mem_entries_iff.2 (column_eq_ok_iff.1 hspec), i.mode, ?_,
      rfl, rfl, rfl, hcast.symm, ho⟩
    cases i.mode <;> decide

theorem pairwise_indexes (r : Registry) : r.indexes.Pairwise Index.Precedes := by
  rw [indexes, List.pairwise_flatMap]
  constructor
  · intro e _
    rw [List.pairwise_filterMap]
    have hall : QueryMode.all.Pairwise fun a b =>
        QueryMode.all.idxOf a < QueryMode.all.idxOf b := by decide
    refine hall.imp fun hlt a ha b hb => ?_
    obtain ⟨ht, hc, hm, _⟩ := Entry.index?_eq_some_iff.1 ha
    obtain ⟨ht', hc', hm', _⟩ := Entry.index?_eq_some_iff.1 hb
    exact .inr ⟨ht.trans ht'.symm, .inr ⟨hc.trans hc'.symm, hm ▸ hm' ▸ hlt⟩⟩
  · refine (pairwise_entries r).imp fun hp a ha b hb => ?_
    obtain ⟨_, _, ha⟩ := List.mem_filterMap.1 ha
    obtain ⟨_, _, hb⟩ := List.mem_filterMap.1 hb
    obtain ⟨ht, hc, _⟩ := Entry.index?_eq_some_iff.1 ha
    obtain ⟨ht', hc', _⟩ := Entry.index?_eq_some_iff.1 hb
    rw [Index.Precedes, ht, hc, ht', hc']
    rcases hp with hp | ⟨heq, hp⟩
    · exact .inl hp
    · exact .inr ⟨heq, .inl hp⟩

theorem setupStatements_eq_ok_iff {r : Registry} {statements : List String} :
    r.setupStatements = .ok statements ↔ r.NamesChecked ∧
      statements = r.indexes.map Index.statement ++ [Sql.encryptStatement, Sql.activateStatement] := by
  have hmap : (r.entries.map Entry.indexStatements).flatten = r.indexes.map Index.statement := by
    rw [← List.flatMap_def, indexes, List.map_flatMap]
    congr 1
    funext e
    exact e.indexStatements_eq
  rw [setupStatements, bind_eq_ok]
  constructor
  · intro h
    obtain ⟨perColumn, hwalk, h⟩ := h
    obtain ⟨hn, rfl⟩ := walk_eq_ok_iff.1 hwalk
    cases h
    exact ⟨hn, by rw [hmap]⟩
  · intro h
    obtain ⟨hn, rfl⟩ := h
    exact ⟨_, walk_eq_ok_iff.2 ⟨hn, rfl⟩, by rw [hmap]; rfl⟩

theorem readIndexCall_statement {r : Registry} (hn : r.NamesChecked) {i : Index} (hi : i ∈ r.indexes) :
    Sql.readIndexCall i.statement = some i.call := by
  obtain ⟨spec, hspec, _⟩ := mem_indexes_iff.1 hi
  obtain ⟨htable, hcolumn⟩ := hn.of_column hspec
  rw [i.call_eq]
  exact Sql.readIndexCall_addIndex (Identifier.ne_quote_of_mem (.inl htable))
    (Identifier.ne_quote_of_mem (.inr hcolumn)) _ _ _

theorem map_readIndexCall_statement {r : Registry} (hn : r.NamesChecked) :
    (r.indexes.map Index.statement).map Sql.readIndexCall = r.indexes.map fun i => some i.call := by
  rw [List.map_map]
  exact List.map_congr_left fun i hi => readIndexCall_statement hn hi

/-- **Setup statements are safe, complete and in order.** The two statements at the end stand
behind one call for every index of the registry, and each call is read back to its arguments. -/
theorem readIndexCall_setupStatements {r : Registry} {statements : List String}
    (h : r.setupStatements = .ok statements) :
    ∃ (calls : List String) (indexes : List Index),
      statements = calls ++ ["SELECT cs_encrypt_v1();", "SELECT cs_activate_v1();"] ∧
      indexes.Pairwise Index.Precedes ∧
      (∀ i, i ∈ indexes ↔ ∃ spec, r.column i.table i.column = .ok spec ∧ spec.cast = i.cast ∧
        spec.indexes.get? i.mode = some i.options) ∧
      calls.map Sql.readIndexCall = indexes.map fun i => some i.call := by
  obtain ⟨hn, rfl⟩ := setupStatements_eq_ok_iff.1 h
  exact ⟨r.indexes.map Index.statement, r.indexes, rfl, pairwise_indexes r,
    fun i => mem_indexes_iff, map_readIndexCall_statement hn⟩

def quoted : Registry :=
  empty.insert "users" "name"
    { indexes := { unique := some [], matching := some [("tokenizer", .string "'it''s'")] } }

theorem readIndexCall_setupStatements_quoted :
    ∃ statements calls, quoted.setupStatements = .ok statements ∧
      statements = calls ++ ["SELECT cs_encrypt_v1();", "SELECT cs_activate_v1();"] ∧
      some (Sql.IndexCall.mk "users" "name" "match" "text"
        (some "\x7b\"tokenizer\":\"'it''s'\"\x7d")) ∈ calls.map Sql.readIndexCall := by
  have hn : quoted.NamesChecked := by
    unfold NamesChecked
    decide +kernel
  obtain ⟨calls, indexes, hs, _, hi, hread⟩ :=
    readIndexCall_setupStatements (setupStatements_eq_ok_iff.2 ⟨hn, rfl⟩)
  refine ⟨_, calls, setupStatements_eq_ok_iff.2 ⟨hn, rfl⟩, hs, ?_⟩
  rw [hread, List.mem_map]
  exact ⟨⟨"users", "name", .matching, .text, [("tokenizer", .string "'it''s'")]⟩,
    (hi _).2 ⟨_, rfl, rfl, rfl⟩, by decide +kernel⟩

end Registry

end EncryptedColumns
