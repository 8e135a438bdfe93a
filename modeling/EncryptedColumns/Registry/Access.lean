import EncryptedColumns.Payload
import EncryptedColumns.Registry.Basic

/-!
# Access through the registry

Operands are made only for columns that carry the index, payloads are read as the
kind that the column is cast as, and rows are decoded cell by cell.
-/

namespace EncryptedColumns

namespace ColumnSpec

def checkRange (spec : ColumnSpec) (table column : String) : PlainValue → Except Refusal Unit
  | .integer n =>
    if spec.cast.holds n then .ok () else .error (.outOfRange table column spec.cast n)
  | _ => .ok ()

end ColumnSpec

namespace Registry

def requireIndex (r : Registry) (table column : String) (mode : QueryMode) :
    Except Refusal ColumnSpec := do
  let spec ← r.column table column
  if spec.supports mode then return spec
  else throw (.indexNotConfigured table column mode)

/-- An operand for an indexed column. It must be a value that the column could hold, except
under `ste_vec`, where a document is compared with its terms too. -/
def operand (r : Registry) (table column : String) (mode : QueryMode) (value : PlainValue) :
    Except Refusal String := do
  let spec ← r.requireIndex table column mode
  if mode ≠ .steVec then
    if value.kind ≠ spec.kind then
      throw (.kindMismatch table column spec.kind value.kind)
    spec.checkRange table column value
  EncryptedColumns.operand value table column mode

def pathOperand (r : Registry) (table column path : String) : Except Refusal String := do
  let _ ← r.requireIndex table column .steVec
  return EncryptedColumns.pathOperand path table column

def decodeColumn (r : Registry) (table column : String) (data : Bytes) :
    Except Refusal PlainValue := do
  let spec ← r.column table column
  let value ← Payload.decodeAs data spec.kind
  spec.checkRange table column value
  return value

end Registry

/-! ## Rows -/

namespace TableSpec

/-- A cell of an encrypted column holds null, or a payload as an object or as its text. -/
def decodeCell (specs : TableSpec) (column : String) (cell : Json) : Except Refusal Json :=
  match specs.find? column, cell with
  | none, cell => .ok cell
  | some _, .null => .ok .null
  | some spec, .object o => do
    return (← Payload.decodeAs (Bytes.ofString (Json.object o).compact) spec.kind).toJson
  | some spec, .string text => do
    return (← Payload.decodeAs (Bytes.ofString text) spec.kind).toJson
  | some _, cell => .error (.malformedEnvelope (.rowHolds column cell))

/-- A row has no key twice, so a field that is decoded comes to stand behind those before it. -/
def decodeNext (specs : TableSpec) (out : Object) (field : String × Json) : Except Refusal Object := do
  return out ++ [(field.1, ← decodeCell specs field.1 field.2)]

def decodeRow (specs : TableSpec) (row : Object) : Except Refusal Object :=
  row.foldlM specs.decodeNext []

end TableSpec

end EncryptedColumns
