import EncryptedColumns.Identifier
import EncryptedColumns.Json.Record
import EncryptedColumns.Refusal

/-!
# Column references

The table and the column that a value is written to or compared against. A
reference may hold any names; a checked one holds names that SQL text can carry.
-/

namespace EncryptedColumns

structure ColumnRef where
  table : String
  column : String
  deriving DecidableEq

def checkColumn (name : String) : Except Refusal Unit :=
  if Identifier.isColumn name then .ok () else .error (.invalidIdentifier name)

def checkTable (name : String) : Except Refusal Unit :=
  if Identifier.isTable name then .ok () else .error (.invalidIdentifier name)

namespace ColumnRef

def checked (table column : String) : Except Refusal ColumnRef := do
  checkTable table
  checkColumn column
  return ⟨table, column⟩

def toJson (r : ColumnRef) : Json :=
  .object [("t", .string r.table), ("c", .string r.column)]

structure Draft where
  table : Option String := none
  column : Option String := none

def layout : Json.Layout Draft ColumnRef where
  name := "TableColumn"
  fields := [
    ⟨"t", (·.table.isSome), Json.text.map fun s d => { d with table := some s }⟩,
    ⟨"c", (·.column.isSome), Json.text.map fun s d => { d with column := some s }⟩]
  complete missing d := do
    return ⟨← Json.due (missing 0 "t") d.table, ← Json.due (missing 1 "c") d.column⟩

def reader : Json.Reader ColumnRef := layout.reader {}

end ColumnRef

end EncryptedColumns
