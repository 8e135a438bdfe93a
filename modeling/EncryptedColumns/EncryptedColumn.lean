import EncryptedColumns.Payload

/-!
# Encrypted columns

A column bound to the type of its plaintexts. Values go to the database as
envelopes and come back from the cells of a result row; null stays null.
-/

namespace EncryptedColumns

/-- A cell of a result row. Texts are bytes here, for a database need not check them. -/
inductive Cell where
  | null
  | integer (n : Int64)
  | real (x : Float)
  | text (data : Bytes)
  | blob (data : Bytes)
  deriving DecidableEq

namespace Cell

def ofParameter : Option String → Cell
  | none => .null
  | some s => .text (Bytes.ofString s)

def storage : Cell → String
  | .null => "null"
  | .integer _ => "integer"
  | .real _ => "real"
  | .text _ => "text"
  | .blob _ => "blob"

end Cell

structure EncryptedColumn (α : Type) where
  target : ColumnRef
  deriving DecidableEq

namespace EncryptedColumn

variable {α : Type}

def checked (α : Type) (table column : String) : Except Refusal (EncryptedColumn α) := do
  return ⟨← ColumnRef.checked table column⟩

def describe (c : EncryptedColumn α) : String :=
  "EncryptedColumn \x7b table: " ++ Text.quoted c.target.table ++ ", column: " ++
    Text.quoted c.target.column ++ " \x7d"

/-! ## Writing -/

def encode [Rendered α] (c : EncryptedColumn α) (value : α) : Except Refusal String :=
  EncryptedColumns.encode value c.target.table c.target.column

def encode? [Rendered α] (c : EncryptedColumn α) : Option α → Except Refusal (Option String)
  | none => .ok none
  | some value => (c.encode value).map some

def bind [Rendered α] (c : EncryptedColumn α) (value : Option α) : Except Refusal Cell :=
  (c.encode? value).map Cell.ofParameter

def operand [Rendered α] (c : EncryptedColumn α) (value : α) (mode : QueryMode) :
    Except Refusal String :=
  EncryptedColumns.operand value c.target.table c.target.column mode

def pathOperand (c : EncryptedColumn α) (path : String) : String :=
  EncryptedColumns.pathOperand path c.target.table c.target.column

/-! ## Reading -/

def decode [Plaintext α] (_c : EncryptedColumn α) (data : Bytes) : Except Refusal α :=
  Payload.decode α data

def decode? [Plaintext α] (c : EncryptedColumn α) : Option Bytes → Except Refusal (Option α)
  | none => .ok none
  | some data => (c.decode data).map some

def readCell [Plaintext α] (c : EncryptedColumn α) : Cell → Except Refusal (Option α)
  | .null => .ok none
  | .text data | .blob data => (c.decode data).map some
  | .integer _ => .error (.malformedEnvelope (.cellHolds c.target.column "Integer"))
  | .real _ => .error (.malformedEnvelope (.cellHolds c.target.column "Real"))

def read [Plaintext α] (c : EncryptedColumn α) (row : List Cell) (index : Nat) :
    Except Refusal (Option α) :=
  match row[index]? with
  | some cell => c.readCell cell
  | none => .error (.noSuchCell index)

end EncryptedColumn

end EncryptedColumns
