import EncryptedColumns.Registry.Basic

/-!
# The columns of a registry

Walking through the registry either meets a name that is no identifier or gives
every column once, ordered by table and then by column. What the walk gives is what
looking up finds.
-/

namespace EncryptedColumns

/-! ## Walks that can be refused -/

section
variable {ε α β : Type}

theorem mapM_eq_ok_iff {f : α → Except ε β} {g : α → β} (hg : ∀ x y, f x = .ok y → y = g x)
    {xs : List α} {ys : List β} :
    xs.mapM f = .ok ys ↔ (∀ x ∈ xs, f x = .ok (g x)) ∧ ys = xs.map g := by
  induction xs generalizing ys with
  | nil => simp [pure, Except.pure, eq_comm]
  | cons x xs ih =>
    rw [List.mapM_cons, bind_eq_ok, List.forall_mem_cons, List.map_cons]
    constructor
    · intro h
      obtain ⟨y, hy, h⟩ := h
      obtain ⟨ys', hys, h⟩ := bind_eq_ok.1 h
      cases h
      obtain ⟨hall, rfl⟩ := ih.1 hys
      obtain rfl := hg x y hy
      exact ⟨⟨hy, hall⟩, rfl⟩
    · intro h
      obtain ⟨⟨hx, hall⟩, rfl⟩ := h
      exact ⟨g x, hx, bind_eq_ok.2 ⟨xs.map g, ih.2 ⟨hall, rfl⟩, rfl⟩⟩

theorem mapM_eq_error_iff {f : α → Except ε β} {xs : List α} {e : ε} :
    xs.mapM f = .error e ↔ ∃ before x after, xs = before ++ x :: after ∧
      (∀ a ∈ before, ∃ b, f a = .ok b) ∧ f x = .error e := by
  induction xs with
  | nil => simp [pure, Except.pure]
  | cons y ys ih =>
    rw [List.mapM_cons]
    constructor
    · intro h
      cases hy : f y with
      | error e' =>
        rw [hy] at h
        cases h
        exact ⟨[], y, ys, rfl, List.forall_mem_nil _, hy⟩
      | ok b =>
        rw [hy] at h
        have hys : ys.mapM f = .error e := by
          cases hm : ys.mapM f with
          | error e' => rw [hm] at h; cases h; rfl
          | ok bs => rw [hm] at h; cases h
        obtain ⟨before, x, after, rfl, hbefore, hx⟩ := ih.1 hys
        exact ⟨y :: before, x, after, rfl, List.forall_mem_cons.2 ⟨⟨b, hy⟩, hbefore⟩, hx⟩
    · rintro ⟨before, x, after, hsplit, hbefore, hx⟩
      cases before with
      | nil =>
        cases hsplit
        rw [hx]
        rfl
      | cons a before =>
        cases hsplit
        obtain ⟨⟨b, hb⟩, hbefore⟩ := List.forall_mem_cons.1 hbefore
        rw [hb, ih.2 ⟨before, x, after, rfl, hbefore, hx⟩]
        rfl

/-- Where each step only checks some keys and then gives `out`, the walk checks all keys in order. -/
theorem mapM_eq_map_flatMap {κ : Type} {step : α → Except ε β} {check : κ → Except ε κ}
    {keys : α → List κ} {out : α → β}
    (h : ∀ x, step x = ((keys x).mapM check).map fun _ => out x) (xs : List α) :
    xs.mapM step = ((xs.flatMap keys).mapM check).map fun _ => xs.map out := by
  induction xs with
  | nil => rfl
  | cons x xs ih =>
    rw [List.mapM_cons, h, ih, List.flatMap_cons, List.mapM_append]
    cases (keys x).mapM check with
    | error e => rfl
    | ok _ =>
      cases (xs.flatMap keys).mapM check with
      | error e => rfl
      | ok _ => rfl

end

/-! ## Looking up a name -/

namespace NameMap

variable {α : Type}

theorem find?_eq_some_iff {m : NameMap α} {name : String} {a : α} :
    m.find? name = some a ↔ (name, a) ∈ m.entries := by
  obtain ⟨es, h⟩ := m
  show es.lookup name = some a ↔ (name, a) ∈ es
  induction es with
  | nil => simp
  | cons e es ih =>
    obtain ⟨n, b⟩ := e
    obtain ⟨hlt, h⟩ := List.pairwise_cons.1 h
    rw [List.lookup_cons, List.mem_cons]
    by_cases hn : name = n
    · subst hn
      rw [beq_self_eq_true]
      refine ⟨fun h => .inl (by rw [Option.some.inj h]), fun h => ?_⟩
      rcases h with h | h
      · rw [(Prod.mk.inj h).2]
      · exact absurd (hlt _ h) (String.lt_irrefl _)
    · rw [beq_false_of_ne hn]
      refine (ih h).trans ⟨.inr, fun h => ?_⟩
      rcases h with h | h
      · exact absurd (Prod.mk.inj h).1 hn
      · exact h

theorem lookup_insertEntry_self (name : String) (a : α) (es : List (String × α)) :
    (insertEntry name a es).lookup name = some a := by
  induction es with
  | nil => simp [insertEntry]
  | cons e es ih =>
    obtain ⟨n, b⟩ := e
    rw [insertEntry]
    split
    · simp
    · split
      · simp
      · rename_i hn
        rw [List.lookup_cons, beq_false_of_ne hn, ih]

theorem lookup_insertEntry_of_ne {name key : String} (h : name ≠ key) (a : α) (es : List (String × α)) :
    (insertEntry name a es).lookup key = es.lookup key := by
  have hk : (key == name) = false := beq_false_of_ne (Ne.symm h)
  induction es with
  | nil => rw [insertEntry, List.lookup_cons, hk]
  | cons e es ih =>
    obtain ⟨n, b⟩ := e
    rw [insertEntry]
    split
    · rw [List.lookup_cons, hk]
    · split
      · rename_i hn
        rw [List.lookup_cons, List.lookup_cons, ← hn, hk]
      · rw [List.lookup_cons, List.lookup_cons, ih]

theorem find?_insert (m : NameMap α) (name key : String) (a : α) :
    (m.insert name a).find? key = if name = key then some a else m.find? key := by
  split
  · rename_i h
    exact h ▸ lookup_insertEntry_self name a m.entries
  · rename_i h
    exact lookup_insertEntry_of_ne h a m.entries

theorem ext {m m' : NameMap α} (h : m.entries = m'.entries) : m = m' := by
  cases m
  cases m'
  cases h
  rfl

theorem insertEntry_of_forall_lt {name : String} {es : List (String × α)} (h : ∀ e ∈ es, e.1 < name)
    (a : α) : insertEntry name a es = es ++ [(name, a)] := by
  induction es with
  | nil => rfl
  | cons e es ih =>
    obtain ⟨hlt, h⟩ := List.forall_mem_cons.1 h
    rw [insertEntry, if_neg (String.lt_asymm hlt), if_neg (String.ne_of_lt hlt).symm, ih h]
    rfl

end NameMap

namespace Registry

def entries (r : Registry) : List Entry :=
  r.tables.entries.flatMap fun t => t.2.entries.map fun c => ⟨t.1, c.1, c.2⟩

/-- All names can stand in SQL text, those of tables without columns included. -/
def NamesChecked (r : Registry) : Prop :=
  ∀ t ∈ r.tables.entries, Identifier.isTable t.1 = true ∧
    ∀ c ∈ t.2.entries, Identifier.isColumn c.1 = true

/-! ## The names on the way -/

/-- A name that a walk comes to: that of a table, or that of a column in its table. -/
structure Key where
  table : String
  column : Option String

namespace Key

def name (k : Key) : String := k.column.getD k.table

def isIdentifier (k : Key) : Bool :=
  match k.column with
  | none => Identifier.isTable k.table
  | some column => Identifier.isColumn column

def checked (k : Key) : Except Refusal Key :=
  if k.isIdentifier then .ok k else .error (.invalidIdentifier k.name)

theorem checked_eq_ok_iff {k k' : Key} : k.checked = .ok k' ↔ k.isIdentifier = true ∧ k' = k := by
  by_cases h : k.isIdentifier = true <;> simp [checked, h, eq_comm]

theorem checked_eq_error_iff {k : Key} {e : Refusal} :
    k.checked = .error e ↔ k.isIdentifier = false ∧ e = .invalidIdentifier k.name := by
  by_cases h : k.isIdentifier = true <;> simp [checked, h, eq_comm]

theorem mapM_checked_eq_ok_iff {ks out : List Key} :
    ks.mapM checked = .ok out ↔ (∀ k ∈ ks, k.isIdentifier = true) ∧ out = ks := by
  have hid (k k' : Key) (h : k.checked = .ok k') : k' = id k := (checked_eq_ok_iff.1 h).2
  rw [mapM_eq_ok_iff hid]
  simp [checked_eq_ok_iff]

theorem checked_table (table : String) :
    (Key.mk table none).checked = (checkTable table).map fun _ => ⟨table, none⟩ := by
  by_cases h : Identifier.isTable table = true <;> simp [checked, checkTable, isIdentifier, name, h, Except.map]

theorem checked_column (table column : String) :
    (Key.mk table (some column)).checked = (checkColumn column).map fun _ => ⟨table, some column⟩ := by
  by_cases h : Identifier.isColumn column = true <;> simp [checked, checkColumn, isIdentifier, name, h, Except.map]

end Key

def tableKeys (t : String × TableSpec) : List Key :=
  ⟨t.1, none⟩ :: t.2.entries.map fun c => ⟨t.1, some c.1⟩

def keys (r : Registry) : List Key :=
  r.tables.entries.flatMap tableKeys

theorem namesChecked_iff {r : Registry} : r.NamesChecked ↔ ∀ k ∈ r.keys, k.isIdentifier = true := by
  simp only [keys, tableKeys, List.forall_mem_flatMap, List.forall_mem_cons, List.forall_mem_map]
  rfl

/-! ## Walking -/

/-- It makes no difference to a walk whether its names are checked on the way or before it. -/
theorem walk_eq {β : Type} (r : Registry) (write : Entry → β) :
    r.walk write = (r.keys.mapM Key.checked).map fun _ => r.entries.map write := by
  have hcolumn (table : String) (c : String × ColumnSpec) :
      (do checkColumn c.1; return write ⟨table, c.1, c.2⟩) =
        ([Key.mk table (some c.1)].mapM Key.checked).map fun _ => write ⟨table, c.1, c.2⟩ := by
    rw [List.mapM_cons, Key.checked_column]
    cases checkColumn c.1 <;> rfl
  have htable (t : String × TableSpec) :
      (do
        checkTable t.1
        t.2.entries.mapM fun c => do
          checkColumn c.1
          return write ⟨t.1, c.1, c.2⟩) =
        ((tableKeys t).mapM Key.checked).map fun _ =>
          t.2.entries.map fun c => write ⟨t.1, c.1, c.2⟩ := by
    -- the name of the table is checked once, in front of those of its columns
    rw [mapM_eq_map_flatMap (hcolumn t.1), tableKeys, List.mapM_cons, Key.checked_table]
    cases checkTable t.1 with
    | error e => rfl
    | ok _ =>
      rw [← List.map_eq_flatMap]
      cases List.mapM Key.checked (t.2.entries.map fun c => ⟨t.1, some c.1⟩) <;> rfl
  have hwrite : (r.tables.entries.map fun t => t.2.entries.map fun c => write ⟨t.1, c.1, c.2⟩).flatten =
      r.entries.map write := by
    simp [entries, List.flatMap_def, List.map_flatten, Function.comp_def]
  rw [walk]
  show (r.tables.entries.mapM _ >>= _) = _
  rw [mapM_eq_map_flatMap htable]
  show _ = ((r.tables.entries.flatMap tableKeys).mapM Key.checked).map _
  cases (r.tables.entries.flatMap tableKeys).mapM Key.checked with
  | error e => rfl
  | ok _ => exact congrArg Except.ok hwrite

theorem walk_eq_ok_iff {β : Type} {r : Registry} {write : Entry → β} {out : List β} :
    r.walk write = .ok out ↔ r.NamesChecked ∧ out = r.entries.map write := by
  rw [walk_eq, map_eq_ok, namesChecked_iff]
  simp only [Key.mapM_checked_eq_ok_iff]
  constructor
  · rintro ⟨_, ⟨h, _⟩, rfl⟩
    exact ⟨h, rfl⟩
  · rintro ⟨h, rfl⟩
    exact ⟨_, ⟨h, rfl⟩, rfl⟩

theorem mem_entries_iff {r : Registry} {e : Entry} :
    e ∈ r.entries ↔ ∃ specs, r.table? e.table = some specs ∧ specs.find? e.column = some e.spec := by
  simp only [entries, List.mem_flatMap, List.mem_map, table?]
  constructor
  · intro h
    obtain ⟨t, ht, c, hc, rfl⟩ := h
    exact ⟨t.2, NameMap.find?_eq_some_iff.2 ht, NameMap.find?_eq_some_iff.2 hc⟩
  · intro h
    obtain ⟨specs, ht, hc⟩ := h
    exact ⟨(e.table, specs), NameMap.find?_eq_some_iff.1 ht, (e.column, e.spec),
      NameMap.find?_eq_some_iff.1 hc, rfl⟩

theorem column_eq_ok_iff {r : Registry} {table column : String} {spec : ColumnSpec} :
    r.column table column = .ok spec ↔
      ∃ specs, r.table? table = some specs ∧ specs.find? column = some spec := by
  unfold Registry.column
  cases ht : r.table? table with
  | none => simp
  | some specs =>
    cases hc : specs.find? column with
    | none => simp [hc]
    | some spec' => simp [hc]

theorem NamesChecked.of_column {r : Registry} (h : r.NamesChecked) {table column : String}
    {spec : ColumnSpec} (hspec : r.column table column = .ok spec) :
    Identifier.isTable table = true ∧ Identifier.isColumn column = true := by
  obtain ⟨specs, ht, hc⟩ := column_eq_ok_iff.1 hspec
  obtain ⟨htable, hcolumns⟩ := h _ (NameMap.find?_eq_some_iff.1 ht)
  exact ⟨htable, hcolumns _ (NameMap.find?_eq_some_iff.1 hc)⟩

def Entry.Precedes (a b : Entry) : Prop :=
  a.table < b.table ∨ a.table = b.table ∧ a.column < b.column

theorem pairwise_entries (r : Registry) : r.entries.Pairwise Entry.Precedes := by
  rw [entries, List.pairwise_flatMap]
  constructor
  · intro t _
    rw [List.pairwise_map]
    exact t.2.ascending.imp fun h => .inr ⟨rfl, h⟩
  · refine r.tables.ascending.imp fun h a ha b hb => ?_
    obtain ⟨c, _, rfl⟩ := List.mem_map.1 ha
    obtain ⟨d, _, rfl⟩ := List.mem_map.1 hb
    exact .inl h

end Registry

end EncryptedColumns
