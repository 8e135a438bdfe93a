import EncryptedColumns.Proofs.Operands

/-!
# Rows are read back

A row is stored with an envelope in place of each plaintext of an encrypted column. The
envelope stands there as its text or as the object that the text is parsed to, and
either way the row is decoded to what it was.
-/

namespace EncryptedColumns

theorem PlainValue.toJson_of_ofJson {j : Json} {v : PlainValue} (h : ofJson j = .ok v) :
    v.toJson = j := by
  cases j with
  | string | bool | object => cases h; rfl
  | number n =>
    cases n with
    | whole n range =>
      rw [ofJson] at h
      split at h
      · rename_i hn
        cases h
        -- below the upper half of the unsigned numbers nothing wraps around
        have hi : (Int64.ofInt n).toInt = n := Int64.toInt_ofInt_of_le range.1 hn
        simp only [toJson, hi]
      · cases h
    | float x => cases h
  | array | null => cases h

inductive StoredForm where
  | text
  | object
  deriving DecidableEq

def StoredForm.cell (form : StoredForm) (envelope : String) : Except Refusal Json :=
  match form with
  | .text => .ok (.string envelope)
  | .object => readJson (Json.value Json.nestingLimit) envelope

theorem StoredForm.exists_cell (form : StoredForm) (e : Envelope) :
    ∃ held, form.cell e.write = .ok held ∧ payload? held = some (Bytes.ofString e.write) := by
  cases form with
  | text => exact ⟨.string e.write, rfl, rfl⟩
  | object =>
    have hp : (Json.value Json.nestingLimit).readAll (Bytes.ofString e.write) = .ok e.toJson :=
      e.parse_write
    refine ⟨e.toJson, ?_, rfl⟩
    rw [StoredForm.cell, readJson, hp]

namespace TableSpec

def storeCell (specs : TableSpec) (table : String) (form : StoredForm) (column : String)
    (cell : Json) : Except Refusal Json :=
  match specs.find? column, cell with
  | none, cell => .ok cell
  | some _, .null => .ok .null
  | some _, cell => do form.cell (← encodeJson cell table column)

/-- The row with its plaintexts encoded, each in the form that is given for its column. -/
def storeRow (specs : TableSpec) (table : String) (form : String → StoredForm) (row : Object) :
    Except Refusal Object :=
  row.mapM fun (column, cell) => do
    return (column, ← storeCell specs table (form column) column cell)

/-- An encrypted column holds null or a plaintext of its kind, any other column anything. -/
def Admits (specs : TableSpec) (column : String) (cell : Json) : Prop :=
  ∀ spec, specs.find? column = some spec → cell = .null ∨
    ∃ v, PlainValue.ofJson cell = .ok v ∧ v.kind = spec.kind ∧ v.IsRestorable

section
variable {specs : TableSpec} {column : String} {spec : ColumnSpec} {cell : Json} {v : PlainValue}

theorem storeCell_of_ofJson (hc : specs.find? column = some spec)
    (hv : PlainValue.ofJson cell = .ok v) (table : String) (form : StoredForm) :
    specs.storeCell table form column cell =
      form.cell (Envelope.wrap v.write table column).write := by
  have he : encodeJson cell table column = .ok (Envelope.wrap v.write table column).write :=
    encodeJson_eq_ok_iff.2 ⟨v, hv, rfl⟩
  cases cell with
  | null => cases hv
  | bool | number | string | array | object =>
    simp only [storeCell, hc]
    rw [he]
    rfl

theorem decodeCell_storeCell (h : specs.Admits column cell) (table : String) (form : StoredForm) :
    ∃ held, specs.storeCell table form column cell = .ok held ∧
      specs.decodeCell column held = .ok cell := by
  cases hc : specs.find? column with
  | none =>
    refine ⟨cell, ?_, ?_⟩
    · simp only [storeCell, hc]
    · simp only [decodeCell, hc]
  | some spec =>
    rcases h spec hc with rfl | ⟨v, hv, hk, hr⟩
    · refine ⟨.null, ?_, ?_⟩
      · simp only [storeCell, hc]
      · simp only [decodeCell, hc]
    · obtain ⟨held, hheld, hpayload⟩ := form.exists_cell (Envelope.wrap v.write table column)
      have hdecode := Payload.decodeAs_wrap hr table column
      refine ⟨held, (storeCell_of_ofJson hc hv table form).trans hheld, ?_⟩
      rw [decodeCell_of_payload hc hpayload, ← hk, hdecode]
      exact congrArg Except.ok (PlainValue.toJson_of_ofJson hv)

end

/-- **Rows are read back.** A row in which every encrypted column holds null or a plaintext of its kind
can be stored, in any choice of forms, and what is stored is decoded to the row, field by field. -/
theorem decodeRow_storeRow {specs : TableSpec} {row : Object}
    (h : ∀ f ∈ row, specs.Admits f.1 f.2) (table : String) (form : String → StoredForm) :
    ∃ stored, specs.storeRow table form row = .ok stored ∧
      stored.map (·.1) = row.map (·.1) ∧ specs.decodeRow stored = .ok row := by
  induction row with
  | nil => exact ⟨[], rfl, rfl, rfl⟩
  | cons f row ih =>
    obtain ⟨column, cell⟩ := f
    obtain ⟨hcell, hrow⟩ := List.forall_mem_cons.1 h
    obtain ⟨held, hstore, hdecode⟩ := decodeCell_storeCell hcell table (form column)
    obtain ⟨stored, hstored, hnames, hdecoded⟩ := ih hrow
    refine ⟨(column, held) :: stored, ?_, ?_, ?_⟩
    · rw [storeRow, List.mapM_cons]
      exact bind_eq_ok.2 ⟨_, bind_eq_ok.2 ⟨held, hstore, rfl⟩, bind_eq_ok.2 ⟨stored, hstored, rfl⟩⟩
    · rw [List.map_cons, hnames]
      rfl
    · rw [decodeRow_eq] at hdecoded
      rw [decodeRow_eq, List.mapM_cons]
      exact bind_eq_ok.2 ⟨_, bind_eq_ok.2 ⟨cell, hdecode, rfl⟩, bind_eq_ok.2 ⟨row, hdecoded, rfl⟩⟩

def people : TableSpec :=
  ((NameMap.empty.insert "age" { cast := .smallInt }).insert "note" { cast := .jsonb }).insert "name" {}

def person : Object :=
  [("name", .string "\"p\":\"7\""), ("id", .array [.number (.whole 1 (by decide))]),
    ("note", .object [("b", .null), ("a", .string "x")]), ("age", .number (.whole (-5) (by decide))),
    ("nick", .null)]

def mixedForms (column : String) : StoredForm :=
  if column = "age" then .text else .object

theorem decodeRow_storeRow_person :
    (∀ f ∈ person, people.Admits f.1 f.2) ∧
    ∃ stored, people.storeRow "users" mixedForms person = .ok stored ∧
      people.decodeRow stored = .ok person := by
  have hname : people.Admits "name" (.string "\"p\":\"7\"") := fun _ h => by
    cases h
    exact .inr ⟨.text "\"p\":\"7\"", rfl, rfl, trivial⟩
  have hid : people.Admits "id" (.array [.number (.whole 1 (by decide))]) := fun _ h => by cases h
  have hnote : people.Admits "note" (.object [("b", .null), ("a", .string "x")]) := fun _ h => by
    cases h
    refine .inr ⟨.document [("b", .null), ("a", .string "x")], rfl, rfl, ?_, ?_, ?_⟩
    · decide
    · exact ⟨by decide, trivial, trivial, trivial⟩
    · exact ⟨trivial, trivial, trivial, trivial⟩
  have hage : people.Admits "age" (.number (.whole (-5) (by decide))) := fun _ h => by
    cases h
    exact .inr ⟨.integer (-5), rfl, rfl, trivial⟩
  have hnick : people.Admits "nick" .null := fun _ h => by cases h
  have hperson : ∀ f ∈ person, people.Admits f.1 f.2 := by
    simp only [person, List.forall_mem_cons]
    exact ⟨hname, hid, hnote, hage, hnick, List.forall_mem_nil _⟩
  obtain ⟨stored, hstored, _, hdecoded⟩ := decodeRow_storeRow hperson "users" mixedForms
  exact ⟨hperson, stored, hstored, hdecoded⟩

end TableSpec

end EncryptedColumns
