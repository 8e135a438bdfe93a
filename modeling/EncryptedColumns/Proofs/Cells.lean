import EncryptedColumns.Proofs.Columns
import EncryptedColumns.Proofs.KindsApart
import EncryptedColumns.Registry.Access

/-!
# Cells and columns

A payload can be decoded as the cell of a row or as the value of a column. Both read
it as the kind of the column, but only the second looks at the range of the cast. So
they agree except on the integers that the cast does not hold.
-/

namespace EncryptedColumns

def Cast.Excludes : Cast → Int64 → Prop
  | .smallInt, n => n.toInt < -32768 ∨ 32767 < n.toInt
  | .int, n => n.toInt < -2147483648 ∨ 2147483647 < n.toInt
  | _, _ => False

theorem Cast.holds_iff {cast : Cast} {n : Int64} : cast.holds n = true ↔ ¬ cast.Excludes n := by
  cases cast with
  | text | boolean | jsonb => simp [holds, range?, Excludes]
  | bigInt =>
    have h : Int64.minValue ≤ n ∧ n ≤ Int64.maxValue :=
      ⟨Int64.le_iff_toInt_le.2 n.minValue_le_toInt, Int64.le_iff_toInt_le.2 n.toInt_le⟩
    simp [holds, range?, Excludes, h]
  | smallInt =>
    have hl : (-0x8000 : Int64).toInt = -32768 := by decide
    have hg : (0x7FFF : Int64).toInt = 32767 := by decide
    simp only [holds, range?, Excludes, Bool.and_eq_true, decide_eq_true_eq, Int64.le_iff_toInt_le, hl, hg]
    omega
  | int =>
    have hl : (-0x80000000 : Int64).toInt = -2147483648 := by decide
    have hg : (0x7FFFFFFF : Int64).toInt = 2147483647 := by decide
    simp only [holds, range?, Excludes, Bool.and_eq_true, decide_eq_true_eq, Int64.le_iff_toInt_le, hl, hg]
    omega

theorem ColumnSpec.checkRange_of_excludes {spec : ColumnSpec} {n : Int64} (h : spec.cast.Excludes n)
    (table column : String) :
    spec.checkRange table column (.integer n) = .error (.outOfRange table column spec.cast n) :=
  if_neg fun hh => Cast.holds_iff.1 hh h

theorem ColumnSpec.checkRange_of_not_excludes {spec : ColumnSpec} {v : PlainValue}
    (h : ∀ n, v = .integer n → ¬ spec.cast.Excludes n) (table column : String) :
    spec.checkRange table column v = .ok () := by
  cases v with
  | integer n => exact if_pos (Cast.holds_iff.2 (h n rfl))
  | text | boolean | document => rfl

/-! ## Refusals of a payload -/

/-- What can be wrong with a payload, apart from the column that it stands in. -/
def Refusal.IsOfPayload : Refusal → Prop
  | .malformedEnvelope _ | .missingPlaintext => True
  | .malformedNumber _ _ | .malformedBoolean _ | .malformedDocument _ => True
  | _ => False

theorem Kind.isOfPayload_of_read {k : Kind} {p : String} {e : Refusal} (h : k.read p = .error e) :
    e.IsOfPayload := by
  have hunfit := Kind.unfitFor?_of_read h
  cases e with
  | malformedNumber | malformedBoolean | malformedDocument => trivial
  | _ => cases hunfit

namespace Payload

section
variable {data : Bytes} {e : Refusal}

theorem isOfPayload_of_plaintext (h : plaintext data = .error e) : e.IsOfPayload := by
  unfold plaintext fields at h
  cases hp : Json.parse data with
  | error fault =>
    rw [hp] at h
    cases h
    trivial
  | ok j =>
    rw [hp] at h
    cases j with
    | object o =>
      simp only [bind, Except.bind] at h
      split at h
      · cases h
      · cases h
        trivial
    | null | bool | number | string | array =>
      cases h
      trivial

theorem isOfPayload_of_decodeAs {k : Kind} (h : decodeAs data k = .error e) : e.IsOfPayload := by
  cases hp : plaintext data with
  | error e' =>
    rw [decodeAs, hp] at h
    cases h
    exact isOfPayload_of_plaintext hp
  | ok p =>
    rw [decodeAs_eq_map_read hp] at h
    cases hr : k.read p with
    | error e' =>
      rw [hr] at h
      cases h
      exact Kind.isOfPayload_of_read hr
    | ok a => rw [hr] at h; cases h

end

end Payload

namespace TableSpec

section
variable {specs : TableSpec}

def decodeField (specs : TableSpec) (f : String × Json) : Except Refusal (String × Json) := do
  return (f.1, ← specs.decodeCell f.1 f.2)

theorem foldlM_decodeNext (row out : Object) :
    row.foldlM specs.decodeNext out = (row.mapM specs.decodeField).map (out ++ ·) := by
  induction row generalizing out with
  | nil => simp [pure, Except.pure, Except.map]
  | cons f row ih =>
    rw [List.foldlM_cons, List.mapM_cons, decodeNext, decodeField]
    cases specs.decodeCell f.1 f.2 with
    | error e => rfl
    | ok cell =>
      -- the field that has been decoded is now the last of `out`
      simp only [bind, Except.bind, pure, Except.pure]
      rw [ih]
      cases row.mapM specs.decodeField with
      | error e => rfl
      | ok gs => simp [Except.map]

theorem decodeRow_eq (row : Object) : specs.decodeRow row = row.mapM specs.decodeField := by
  rw [decodeRow, foldlM_decodeNext]
  cases row.mapM specs.decodeField <;> rfl

theorem decodeRow_field (f : String × Json) :
    specs.decodeRow [f] = (specs.decodeField f).map fun g => [g] := by
  rw [decodeRow_eq, List.mapM_cons]
  cases specs.decodeField f <;> rfl

theorem decodeCell_of_plain {column : String} {cell : Json}
    (h : cell = .null ∨ specs.find? column = none) : specs.decodeCell column cell = .ok cell := by
  unfold decodeCell
  rcases h with rfl | h
  · cases specs.find? column <;> rfl
  · simp [h]

end

end TableSpec

/-! ## The two readers -/

def payload? : Json → Option Bytes
  | .string text => some (Bytes.ofString text)
  | .object o => some (Bytes.ofString (Json.object o).compact)
  | _ => none

section
variable {r : Registry} {table column : String} {specs : TableSpec} {spec : ColumnSpec} {cell : Json}
  {data : Bytes}

theorem TableSpec.decodeCell_of_payload (hc : specs.find? column = some spec)
    (hd : payload? cell = some data) :
    specs.decodeCell column cell = (Payload.decodeAs data spec.kind).map (·.toJson) := by
  cases cell with
  | string | object =>
    cases hd
    simp only [decodeCell, hc]
    cases Payload.decodeAs _ spec.kind <;> rfl
  | null | bool | number | array => cases hd

theorem TableSpec.decodeRow_singleton (hc : specs.find? column = some spec)
    (hd : payload? cell = some data) :
    specs.decodeRow [(column, cell)] =
      (Payload.decodeAs data spec.kind).map fun v => [(column, v.toJson)] := by
  rw [decodeRow_field, decodeField, decodeCell_of_payload hc hd]
  cases Payload.decodeAs data spec.kind <;> rfl

theorem Registry.decodeColumn_eq (ht : r.table? table = some specs)
    (hc : specs.find? column = some spec) (data : Bytes) :
    r.decodeColumn table column data = do
      let v ← Payload.decodeAs data spec.kind
      spec.checkRange table column v
      return v := by
  rw [decodeColumn, column_eq_ok_iff.2 ⟨specs, ht, hc⟩]
  rfl

theorem Registry.decodeColumn_of_excludes (ht : r.table? table = some specs)
    (hc : specs.find? column = some spec) {n : Int64}
    (hn : Payload.decodeAs data spec.kind = .ok (.integer n)) (he : spec.cast.Excludes n) :
    r.decodeColumn table column data = .error (.outOfRange table column spec.cast n) := by
  rw [decodeColumn_eq ht hc, hn]
  show (spec.checkRange table column (.integer n) >>= fun _ => _) = _
  rw [ColumnSpec.checkRange_of_excludes he]
  rfl

theorem Registry.decodeColumn_of_not_excludes (ht : r.table? table = some specs)
    (hc : specs.find? column = some spec)
    (h : ∀ n, Payload.decodeAs data spec.kind = .ok (.integer n) → ¬ spec.cast.Excludes n) :
    r.decodeColumn table column data = Payload.decodeAs data spec.kind := by
  rw [decodeColumn_eq ht hc]
  cases hp : Payload.decodeAs data spec.kind with
  | error e => rfl
  | ok v =>
    have hin : ∀ n, v = .integer n → ¬ spec.cast.Excludes n := fun n hv => h n (hv ▸ hp)
    show (spec.checkRange table column v >>= fun _ => _) = _
    rw [ColumnSpec.checkRange_of_not_excludes hin]
    rfl

/-- **Rows and columns agree on the values that the cast holds.** Decoding a row that has just the
cell gives what decoding the column gives, exactly unless the payload is an integer outside the
range. Then the row has the integer, and the column is refused. -/
theorem decodeRow_agrees_iff (ht : r.table? table = some specs)
    (hc : specs.find? column = some spec) (hd : payload? cell = some data) :
    ((∀ out, specs.decodeRow [(column, cell)] = .ok out ↔
        ∃ v, r.decodeColumn table column data = .ok v ∧ out = [(column, v.toJson)]) ↔
      ∀ n, Payload.decodeAs data spec.kind = .ok (.integer n) → ¬ spec.cast.Excludes n) ∧
    ∀ n, Payload.decodeAs data spec.kind = .ok (.integer n) → spec.cast.Excludes n →
      specs.decodeRow [(column, cell)] = .ok [(column, (PlainValue.integer n).toJson)] ∧
        r.decodeColumn table column data = .error (.outOfRange table column spec.cast n) := by
  have hrow := TableSpec.decodeRow_singleton hc hd
  have hexcluded : ∀ n, Payload.decodeAs data spec.kind = .ok (.integer n) → spec.cast.Excludes n →
      specs.decodeRow [(column, cell)] = .ok [(column, (PlainValue.integer n).toJson)] ∧
        r.decodeColumn table column data = .error (.outOfRange table column spec.cast n) := by
    intro n hn he
    refine ⟨?_, Registry.decodeColumn_of_excludes ht hc hn he⟩
    rw [hrow, hn]
    rfl
  refine ⟨⟨fun hagree n hn he => ?_, fun hin out => ?_⟩, hexcluded⟩
  · -- the row has an answer here, and the column has none
    obtain ⟨h, herror⟩ := hexcluded n hn he
    obtain ⟨v, hv, _⟩ := (hagree _).1 h
    rw [herror] at hv
    cases hv
  · rw [hrow, Registry.decodeColumn_of_not_excludes ht hc hin]
    cases Payload.decodeAs data spec.kind with
    | error e => simp [Except.map]
    | ok v => simp [Except.map, eq_comm]

end

def ages : Registry :=
  Registry.empty.insert "users" "age" { cast := .smallInt }

def oldAge : String :=
  (Envelope.wrap (Integer.write 40000) "users" "age").write

theorem decodeRow_agrees_iff_ages :
    ∃ specs, ages.table? "users" = some specs ∧
      ¬ (∀ out, specs.decodeRow [("age", .string oldAge)] = .ok out ↔
        ∃ v, ages.decodeColumn "users" "age" (Bytes.ofString oldAge) = .ok v ∧
          out = [("age", v.toJson)]) ∧
      specs.decodeRow [("age", .string oldAge)] = .ok [("age", (PlainValue.integer 40000).toJson)] ∧
      ages.decodeColumn "users" "age" (Bytes.ofString oldAge) =
        .error (.outOfRange "users" "age" .smallInt 40000) := by
  have hdecode : Payload.decodeAs (Bytes.ofString oldAge) .integer = .ok (.integer 40000) := by
    rw [Payload.decodeAs, oldAge, Payload.plaintext_write]
    exact PlainValue.parse_write (v := .integer 40000) trivial
  have hexcluded : Cast.smallInt.Excludes 40000 := .inr (by decide)
  obtain ⟨specs, ht, hc⟩ : ∃ specs, ages.table? "users" = some specs ∧
      specs.find? "age" = some ⟨.smallInt, {}⟩ := ⟨_, rfl, rfl⟩
  have hd : payload? (.string oldAge) = some (Bytes.ofString oldAge) := rfl
  obtain ⟨hiff, hresults⟩ := decodeRow_agrees_iff ht hc hd
  exact ⟨specs, ht, fun h => hiff.1 h 40000 hdecode hexcluded, hresults 40000 hdecode hexcluded⟩

end EncryptedColumns
