import EncryptedColumns.ColumnRef
import EncryptedColumns.NameMap

/-!
# The registry of encrypted columns

For each table its encrypted columns, and for each column the type it decrypts to
and the indexes it carries. Tables and columns stand in the order of their names.
-/

namespace EncryptedColumns

structure Indexes where
  unique : Option Object := none
  matching : Option Object := none
  ore : Option Object := none
  steVec : Option Object := none
  deriving DecidableEq

namespace Indexes

def get? (indexes : Indexes) : QueryMode → Option Object
  | .unique => indexes.unique
  | .matching => indexes.matching
  | .ore => indexes.ore
  | .steVec => indexes.steVec

def isEmpty (indexes : Indexes) : Bool :=
  QueryMode.all.all fun mode => (indexes.get? mode).isNone

end Indexes

structure ColumnSpec where
  cast : Cast := .text
  indexes : Indexes := {}
  deriving DecidableEq

namespace ColumnSpec

def kind (spec : ColumnSpec) : Kind := spec.cast.kind

def supports (spec : ColumnSpec) (mode : QueryMode) : Bool :=
  (spec.indexes.get? mode).isSome

end ColumnSpec

abbrev TableSpec := NameMap ColumnSpec

structure Registry where
  version : UInt32
  tables : NameMap TableSpec
  deriving DecidableEq

namespace Registry

def currentVersion : UInt32 := 1

def empty : Registry := ⟨currentVersion, ∅⟩

def table? (r : Registry) (name : String) : Option TableSpec :=
  r.tables.find? name

def column (r : Registry) (table column : String) : Except Refusal ColumnSpec :=
  match (r.table? table).bind (·.find? column) with
  | some spec => .ok spec
  | none => .error (.unknownColumn table column)

/-! ## Adding -/

/-- Adds a column under any names, in place of the one that has them. -/
def insert (r : Registry) (table column : String) (spec : ColumnSpec) : Registry :=
  { r with tables := r.tables.insert table (((r.table? table).getD ∅).insert column spec) }

/-- What is done to a registry in place. A change that is refused leaves what it did before. -/
abbrev Change := ExceptT Refusal (StateM Registry)

namespace Change

def run {α : Type} (change : Change α) (r : Registry) : Except Refusal α × Registry :=
  StateT.run (ExceptT.run change) r

def add (table column : String) (spec : ColumnSpec) : Change Unit := do
  ofExcept (checkTable table)
  ofExcept (checkColumn column)
  modify fun r => r.insert table column spec

end Change

def add (r : Registry) (table column : String) (spec : ColumnSpec) : Except Refusal Registry :=
  let (result, r) := (Change.add table column spec).run r
  result.map fun _ => r

/-! ## Walking through -/

structure Entry where
  table : String
  column : String
  spec : ColumnSpec
  deriving DecidableEq

/-- Writes something for each column, in order. A name is checked when the walk comes to it. -/
def walk {β : Type} (r : Registry) (write : Entry → β) : Except Refusal (List β) := do
  let perTable ← r.tables.entries.mapM fun (table, specs) => do
    checkTable table
    specs.entries.mapM fun (column, spec) => do
      checkColumn column
      return write ⟨table, column, spec⟩
  return perTable.flatten

def validate (r : Registry) : Except Refusal Unit := do
  if r.version ≠ currentVersion then
    throw (.invalidRegistry (.unsupportedVersion r.version))
  discard (r.walk fun _ => ())

end Registry

end EncryptedColumns
