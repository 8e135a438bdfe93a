import EncryptedColumns.Proofs.Echo
import EncryptedColumns.Proofs.RowCells

/-!
# Cells that are objects

An object in a row is written out and read again before its plaintext is taken from it. Nothing of
the object is lost on the way, so its fields might as well be looked at where they are, and the row
might as well hold its text.
-/

namespace EncryptedColumns.TableSpec

section
variable {specs : TableSpec} {spec : ColumnSpec} {column : String} {o : Object}

theorem decodeCell_object (hc : specs.find? column = some spec) (ho : o.IsRestorable) :
    specs.decodeCell column (.object o) =
      match o.find? "p" with
      | some (.string p) => (PlainValue.parse spec.kind p).map (·.toJson)
      | _ => .error .missingPlaintext := by
  rw [decodeCell_of_payload hc rfl, Payload.decodeAs, Payload.plaintext_object ho]
  cases o.find? "p" with
  | none => rfl
  | some j => cases j <;> rfl

theorem decodeCell_compact (hc : specs.find? column = some spec) :
    specs.decodeCell column (.string (Json.object o).compact) = specs.decodeCell column (.object o) := by
  rw [decodeCell_of_payload hc rfl, decodeCell_of_payload hc rfl]

theorem decodeRow_compact (hc : specs.find? column = some spec) (before after : Object) :
    specs.decodeRow (before ++ (column, .string (Json.object o).compact) :: after) =
      specs.decodeRow (before ++ (column, .object o) :: after) := by
  simp only [decodeRow_eq, List.mapM_append, List.mapM_cons, decodeField, decodeCell_compact hc]

/-- **An object is decoded to what is found in it.** Its plaintext is what the object itself has under
its key, read as the kind of the column, and without a text there the row is refused. A row that holds
the text of the object in its place is decoded to the same, whatever other cells it has. -/
theorem decodeRow_object (hc : specs.find? column = some spec) (ho : o.IsRestorable) :
    specs.decodeRow [(column, .object o)] =
      (match o.find? "p" with
      | some (.string p) => (PlainValue.parse spec.kind p).map fun v => [(column, v.toJson)]
      | _ => .error .missingPlaintext) ∧
    ∀ before after, specs.decodeRow (before ++ (column, .string (Json.object o).compact) :: after) =
      specs.decodeRow (before ++ (column, .object o) :: after) := by
  refine ⟨?_, decodeRow_compact hc⟩
  rw [decodeRow_field, decodeField, decodeCell_object hc ho]
  split
  · next p hp =>
    cases PlainValue.parse spec.kind p <;> rfl
  · rfl

end

def stray : Object :=
  [("\"p\"", .array [.object [("p", .string "8")], .null]), ("p", .string "7"), ("i\n", .string "\\")]

theorem decodeRow_object_stray :
    visits.find? "age" = some ⟨.int, {}⟩ ∧ stray.IsRestorable ∧ (stray.erase "p").IsRestorable ∧
    visits.decodeRow [("age", .object stray)] = .ok [("age", (PlainValue.integer 7).toJson)] ∧
    visits.decodeRow [("age", .object (stray.erase "p"))] = .error .missingPlaintext ∧
    visits.decodeRow [("id", .null), ("age", .string (Json.object stray).compact)] =
      visits.decodeRow [("id", .null), ("age", .object stray)] := by
  have hc : visits.find? "age" = some ⟨.int, {}⟩ := rfl
  have hstray : stray.IsRestorable := by
    refine ⟨by decide, ?_, ?_⟩
    · exact ⟨by decide, ⟨trivial, ⟨by decide, trivial, trivial⟩, trivial, trivial⟩, trivial, trivial, trivial⟩
    · exact ⟨trivial, ⟨trivial, ⟨trivial, trivial, trivial⟩, trivial, trivial⟩, trivial, trivial, trivial⟩
  have herased : (stray.erase "p").IsRestorable :=
    (Object.Edit.erase stray (show "p" ≠ "k" by decide)).isRestorable hstray
  obtain ⟨hdirect, hcompact⟩ := decodeRow_object hc hstray
  refine ⟨hc, hstray, herased, hdirect.trans rfl, (decodeRow_object hc herased).1.trans rfl, ?_⟩
  exact hcompact [("id", .null)] []

end EncryptedColumns.TableSpec
