import EncryptedColumns.Proofs.Additions
import EncryptedColumns.Proofs.Echo
import EncryptedColumns.Proofs.ReaderResults
import EncryptedColumns.Proofs.RecordText

/-!
# Registries are read back

What a registry writes is read as the registry, as long as the options of its indexes
can be. An index that is not there is left out and so differs from one without options.
Options that come from a document can always be written again, but for floats that are
not read back.
-/

namespace EncryptedColumns

open Json (Reads Ensures Takes TakesAll Layout)

section
variable {α : Type} {item : Json.Reader α} {value : α → Json}

theorem takesAll_mapOf : ∀ (es : List (String × α)) (m m' : NameMap α),
    (∀ e ∈ es, Reads item (value e.2).compact e.2) → m'.entries = m.entries ++ es →
      TakesAll (fun m name => .ok (item.map (m.insert name))) m
        (es.map fun e => (e.1, (value e.2).compact)) m'
  | [], m, m', _, hm => NameMap.ext (by rw [hm, List.append_nil])
  | e :: es, m, m', h, hm => by
    -- the names ascend, so each entry comes after all that are there
    have hlt : ∀ d ∈ m.entries, d.1 < e.1 := by
      have hp := m'.ascending
      rw [hm] at hp
      exact fun d hd => (List.pairwise_append.1 hp).2.2 d hd e (List.mem_cons_self ..)
    have hinsert : (m.insert e.1 e.2).entries = m.entries ++ [e] :=
      NameMap.insertEntry_of_forall_lt hlt e.2
    refine ⟨m.insert e.1 e.2, ⟨_, rfl, (h e (List.mem_cons_self ..)).map _⟩, ?_⟩
    refine takesAll_mapOf es _ m' (fun d hd => h d (List.mem_cons_of_mem _ hd)) ?_
    rw [hinsert, hm, List.append_assoc]
    rfl

theorem reads_mapOf {m : NameMap α} (h : ∀ e ∈ m.entries, Reads item (value e.2).compact e.2) :
    Reads (Json.mapOf item) (m.toJson value).compact m := by
  refine Json.reads_fieldsOf ?_
  rw [List.map_map]
  exact takesAll_mapOf m.entries ∅ m h rfl

end

theorem Cast.reads_name (cast : Cast) : Reads reader (Json.string cast.name).compact cast :=
  Json.reads_oneOf (by cases cast <;> rfl)

/-! ## Indexes -/

namespace Indexes

def Every (p : Object → Prop) (indexes : Indexes) : Prop :=
  ∀ mode options, indexes.get? mode = some options → p options

theorem every_empty {p : Object → Prop} : Every p {} := by
  intro mode options h
  cases mode <;> cases h

namespace Draft

def get? (d : Draft) : QueryMode → Option (Option Object)
  | .unique => d.unique
  | .matching => d.matching
  | .ore => d.ore
  | .steVec => d.steVec

def set (d : Draft) (options : Option Object) : QueryMode → Draft
  | .unique => { d with unique := some options }
  | .matching => { d with matching := some options }
  | .ore => { d with ore := some options }
  | .steVec => { d with steVec := some options }

theorem get?_set (d : Draft) (options : Option Object) (mode mode' : QueryMode) :
    (d.set options mode).get? mode' = if mode = mode' then some options else d.get? mode' := by
  cases mode <;> cases mode' <;> rfl

def Every (p : Object → Prop) (d : Draft) : Prop :=
  ∀ mode options, d.get? mode = some (some options) → p options

theorem Every.set {p : Object → Prop} {d : Draft} (hd : d.Every p) {options : Option Object}
    (h : ∀ o ∈ options, p o) (mode : QueryMode) : (d.set options mode).Every p := by
  intro mode' o hget
  rw [get?_set] at hget
  split at hget
  · exact h o (Option.some.inj hget)
  · exact hd mode' o hget

def takeIn (indexes : Indexes) : List QueryMode → Draft → Draft
  | [], d => d
  | mode :: modes, d =>
    match indexes.get? mode with
    | none => takeIn indexes modes d
    | some options => takeIn indexes modes (d.set (some options) mode)

end Draft

variable {depth : Nat}

theorem fields_layout (depth : Nat) : (layout depth).fields = QueryMode.all.map fun mode =>
    ⟨mode.indexName, fun d => (d.get? mode).isSome,
      (Json.optional (Json.document depth)).map fun options d => d.set options mode⟩ := rfl

theorem takes_options {d : Draft} {mode : QueryMode} (hd : d.get? mode = none) {options : Object}
    (h : (Json.object options).IsRestorable depth) :
    Takes (layout depth).step d (mode.indexName, (Json.object options).compact)
      (d.set (some options) mode) := by
  have hread := Json.reads_optional (Json.reads_document h.nesting h.keys h.floats)
  have hset : (d.get? mode).isSome = false := by rw [hd]; rfl
  cases mode <;> exact Layout.takes rfl hset hread rfl

theorem takesAll_options {indexes : Indexes}
    (h : indexes.Every fun o => (Json.object o).IsRestorable depth) :
    ∀ (modes : List QueryMode) (d : Draft), modes.Nodup → (∀ mode ∈ modes, d.get? mode = none) →
      TakesAll (layout depth).step d
        ((modes.filterMap fun mode => (indexes.get? mode).map fun options =>
          (mode.indexName, Json.object options)).map fun f => (f.1, f.2.compact))
        (d.takeIn indexes modes)
  | [], _, _, _ => rfl
  | mode :: modes, d, hn, hd => by
    obtain ⟨hnot, hn⟩ := List.nodup_cons.1 hn
    obtain ⟨hmode, hd⟩ := List.forall_mem_cons.1 hd
    rw [List.filterMap_cons, Draft.takeIn]
    cases hget : indexes.get? mode with
    | none => exact takesAll_options h modes d hn hd
    | some options =>
      refine ⟨_, takes_options hmode (h mode options hget), takesAll_options h modes _ hn ?_⟩
      intro mode' hm
      have hne : mode ≠ mode' := by
        rintro rfl
        exact hnot hm
      rw [Draft.get?_set, if_neg hne, hd mode' hm]

theorem complete_takeIn (indexes : Indexes) (missing : Nat → String → Json.Fault) :
    (layout depth).complete missing (Draft.takeIn indexes QueryMode.all {}) = .ok indexes := by
  obtain ⟨unique, matching, ore, steVec⟩ := indexes
  cases unique <;> cases matching <;> cases ore <;> cases steVec <;> rfl

theorem reads_toJson {indexes : Indexes}
    (h : indexes.Every fun o => (Json.object o).IsRestorable depth) :
    Reads (reader depth) indexes.toJson.compact indexes :=
  Layout.reads_object (takesAll_options h QueryMode.all {} (by decide) fun mode _ => by cases mode <;> rfl)
    (complete_takeIn indexes)

theorem ensures_reader (depth : Nat) :
    Ensures (reader depth) (Every fun o => (Json.object o).IsReadable depth) := by
  unfold reader
  refine Layout.ensures_reader (P := Draft.Every fun o => (Json.object o).IsReadable depth) ?_ ?_ ?_
  · intro mode o h
    cases mode <;> cases h
  · rw [fields_layout, List.forall_mem_map]
    intro mode _
    have hread := Json.ensures_optional (Json.ensures_document depth)
    exact Json.Field.keeps_map hread fun options ho d hd => hd.set ho mode
  · intro missing d indexes hd h mode o hget
    cases h
    refine hd mode o ?_
    cases mode <;> exact Option.join_eq_some_iff.1 hget

end Indexes

namespace ColumnSpec

variable {depth : Nat}

theorem reads_toJson {spec : ColumnSpec}
    (h : spec.indexes.Every fun o => (Json.object o).IsRestorable depth) :
    Reads (reader depth) spec.toJson.compact spec := by
  have hc : Takes (layout depth).step {} ("cast_as", (Json.string spec.cast.name).compact)
      { cast := some spec.cast } :=
    Layout.takes rfl rfl spec.cast.reads_name rfl
  have hi : Takes (layout depth).step { cast := some spec.cast }
      ("indexes", spec.indexes.toJson.compact)
      { cast := some spec.cast, indexes := some spec.indexes } :=
    Layout.takes rfl rfl (Indexes.reads_toJson h) rfl
  exact Layout.reads_object ⟨_, hc, _, hi, rfl⟩ fun _ => rfl

theorem ensures_reader (depth : Nat) :
    Ensures (reader depth) fun spec => spec.indexes.Every fun o => (Json.object o).IsReadable depth := by
  unfold reader
  refine Layout.ensures_reader (P := fun d => ∀ i ∈ d.indexes,
    i.Every fun o => (Json.object o).IsReadable depth) ?_ ?_ ?_
  · exact fun i hi => nomatch hi
  · refine List.forall_mem_cons.2 ⟨?_, List.forall_mem_singleton.2 ?_⟩
    · exact Json.Field.keeps_map (.anything Cast.reader) fun cast _ d hd => hd
    · refine Json.Field.keeps_map (Indexes.ensures_reader depth) fun i hi d _ j hj => ?_
      cases hj
      exact hi
  · intro missing d spec hd h
    cases h
    cases hi : d.indexes with
    | none => exact Indexes.every_empty
    | some i => exact hd i hi

end ColumnSpec

/-! ## Registries -/

namespace Registry

def EveryOptions (p : Object → Prop) (r : Registry) : Prop :=
  ∀ t ∈ r.tables.entries, ∀ c ∈ t.2.entries, c.2.indexes.Every p

theorem reads_toJson {r : Registry} (h : r.EveryOptions fun o => (Json.object o).IsRestorable 122) :
    Reads reader r.toJson.compact r := by
  let depth := Json.nestingLimit - Indexes.enclosing
  have hv : Takes (layout depth).step {}
      ("v", (Json.number (.whole r.version.toNat (Envelope.range_toNat r.version))).compact)
      { version := some r.version } :=
    Layout.takes rfl rfl (Json.reads_word32 r.version _) rfl
  have hread : Reads (Json.mapOf (Json.mapOf (ColumnSpec.reader depth)))
      (r.tables.toJson (NameMap.toJson ColumnSpec.toJson)).compact r.tables :=
    reads_mapOf fun t ht => reads_mapOf fun c hc => ColumnSpec.reads_toJson (h t ht c hc)
  have ht : Takes (layout depth).step { version := some r.version }
      ("tables", (r.tables.toJson (NameMap.toJson ColumnSpec.toJson)).compact)
      ⟨some r.version, some r.tables⟩ :=
    Layout.takes rfl rfl hread rfl
  exact Layout.reads_object ⟨_, hv, _, ht, rfl⟩ fun _ => rfl

theorem ensures_reader : Ensures reader (EveryOptions fun o => (Json.object o).IsReadable 122) := by
  unfold reader
  refine Layout.ensures_reader (P := fun d => ∀ tables ∈ d.tables, ∀ t ∈ tables.entries,
    ∀ c ∈ t.2.entries, c.2.indexes.Every fun o => (Json.object o).IsReadable 122) ?_ ?_ ?_
  · exact fun tables ht => nomatch ht
  · refine List.forall_mem_cons.2 ⟨?_, List.forall_mem_singleton.2 ?_⟩
    · exact Json.Field.keeps_map (.anything Json.word32) fun version _ d hd => hd
    · have hread := Json.ensures_mapOf (Json.ensures_mapOf (ColumnSpec.ensures_reader 122))
      refine Json.Field.keeps_map hread fun tables hall d _ tables' ht => ?_
      cases ht
      exact hall
  · intro missing d r hd h
    obtain ⟨version, _, h⟩ := bind_eq_ok.1 h
    cases h
    cases ht : d.tables with
    | none => exact List.forall_mem_nil _
    | some tables => exact hd tables ht

theorem ofString_write_of_isValid {r : Registry} (hv : r.IsValid)
    (h : r.EveryOptions fun o => (Json.object o).IsRestorable 122) : ofString r.write = .ok r :=
  ofString_eq_ok_iff.2 ⟨(reads_toJson h).readAll, hv⟩

/-! ## Reachable registries -/

section
variable {p : Object → Prop}

theorem EveryOptions.insert {r : Registry} (hr : r.EveryOptions p) (table column : String)
    {spec : ColumnSpec} (hs : spec.indexes.Every p) : (r.insert table column spec).EveryOptions p := by
  intro t ht c hc
  rcases mem_insert ht hc with rfl | ⟨specs, hspecs, hc⟩
  · exact hs
  · exact hr _ hspecs c hc

theorem EveryOptions.addAll {r : Registry} (hr : r.EveryOptions p) (calls : List Addition)
    (hc : ∀ a ∈ calls, a.spec.indexes.Every p) : (addAll calls r).EveryOptions p := by
  induction calls generalizing r with
  | nil => exact hr
  | cons a as ih =>
    obtain ⟨ha, has⟩ := List.forall_mem_cons.1 hc
    refine ih ?_ has
    cases h : a.isAccepted with
    | true =>
      rw [Addition.run_of_isAccepted h]
      exact hr.insert a.table a.column ha
    | false =>
      obtain ⟨name, he⟩ := Addition.run_of_not_isAccepted h r
      rw [he]
      exact hr

end

/-- **Registries come back.** What a run of calls leads to is read back from what it writes, as long as
the options of its indexes nest no deeper than the document has room for. Options that were read from
a document never do, so what has been loaded can be saved and loaded again, whatever its text looked
like. -/
theorem ofString_write {start : Registry} (h : start.IsInitial) (calls : List Addition) :
    ((addAll calls start).EveryOptions (fun o => (Json.object o).IsRestorable 122) →
      ofString (addAll calls start).write = .ok (addAll calls start)) ∧
    ∀ text r, ofString text = .ok r →
      r.EveryOptions (fun o => (Json.object o).IsReadable 122) ∧
      (r.EveryOptions (fun o => (Json.object o).FloatsReadBack) → ofString r.write = .ok r) := by
  refine ⟨ofString_write_of_isValid (isValid_addAll h.isValid calls), fun text r hload => ?_⟩
  obtain ⟨hread, hvalid⟩ := ofString_eq_ok_iff.1 hload
  have hoptions := ensures_reader.of_readAll hread
  refine ⟨hoptions, fun hfloats => ofString_write_of_isValid hvalid ?_⟩
  intro t ht c hc mode o hget
  obtain ⟨hnesting, hkeys⟩ := hoptions t ht c hc mode o hget
  exact ⟨hnesting, hkeys, hfloats t ht c hc mode o hget⟩

/-- A document with a field that is not known, a column that comes twice and is an array, an index that
is null, options with a key twice, and a table without columns. -/
def saved : String :=
  "\x7b\"x\":[0],\"v\":1,\"tables\":\x7b\"users\":\x7b\"name\":[\"text\"],\"name\":[\"int\"," ++
    "\x7b\"ore\":null,\"match\":\x7b\"b\":1,\"a\":[null],\"b\":true\x7d\x7d]\x7d," ++
    "\"empty\":\x7b\x7d\x7d\x7d"

def savedOptions : Object :=
  [("b", .bool true), ("a", .array [.null])]

def loaded : Registry :=
  Registry.insert ⟨currentVersion, (∅ : NameMap TableSpec).insert "empty" ∅⟩ "users" "name"
    { cast := .int, indexes := { matching := some savedOptions } }

def laterCalls : List Addition :=
  [⟨"users", "age", { indexes := { unique := some [] } }⟩, ⟨"us ers", "age", {}⟩]

theorem ofString_write_loaded :
    ofString saved = .ok loaded ∧ ofString loaded.write = .ok loaded ∧
      ofString (addAll laterCalls loaded).write = .ok (addAll laterCalls loaded) := by
  have hload : ofString saved = .ok loaded := by decide +kernel
  obtain ⟨hsave, hreload⟩ := ofString_write (.document hload) laterCalls
  have hsaved : (Json.object savedOptions).IsRestorable 122 :=
    ⟨by decide, ⟨by decide, trivial, ⟨trivial, trivial, trivial⟩, trivial⟩,
      ⟨trivial, trivial, ⟨trivial, trivial, trivial⟩, trivial⟩⟩
  have hempty : (Json.object []).IsRestorable 122 :=
    ⟨by decide, ⟨by decide, trivial⟩, ⟨trivial, trivial⟩⟩
  have hoptions : loaded.EveryOptions fun o => (Json.object o).IsRestorable 122 := by
    refine EveryOptions.insert ?_ "users" "name" ?_
    · intro t ht c hc
      cases List.mem_singleton.1 ht
      cases hc
    · intro mode o hget
      cases mode <;> cases hget
      exact hsaved
  refine ⟨hload, (hreload saved loaded hload).2 ?_, hsave (hoptions.addAll laterCalls ?_)⟩
  · exact fun t ht c hc mode o hget => (hoptions t ht c hc mode o hget).floats
  · refine List.forall_mem_cons.2 ⟨?_, List.forall_mem_singleton.2 Indexes.every_empty⟩
    intro mode o hget
    cases mode <;> cases hget
    exact hempty

end Registry

end EncryptedColumns
