import EncryptedColumns.Json.Record
import EncryptedColumns.Registry.Basic

/-!
# Registry documents

The registry as JSON. What a column does not say is left to a default: it is cast
as text and carries no index. An index without options differs from no index.
-/

namespace EncryptedColumns

/-! ## Writing -/

namespace Indexes

def toJson (indexes : Indexes) : Json :=
  .object (QueryMode.all.filterMap fun mode =>
    (indexes.get? mode).map fun options => (mode.indexName, .object options))

end Indexes

def ColumnSpec.toJson (spec : ColumnSpec) : Json :=
  .object [("cast_as", .string spec.cast.name), ("indexes", spec.indexes.toJson)]

def NameMap.toJson {α : Type} (value : α → Json) (m : NameMap α) : Json :=
  .object (m.entries.map fun (name, a) => (name, value a))

namespace Registry

def toJson (r : Registry) : Json :=
  .object [
    ("v", .number (.whole r.version.toNat (by have := r.version.toNat_lt; omega))),
    ("tables", r.tables.toJson (NameMap.toJson ColumnSpec.toJson))]

def write (r : Registry) : String :=
  r.toJson.compact

end Registry

/-! ## Reading -/

def Cast.reader : Json.Reader Cast :=
  Json.oneOf (Cast.all.map fun cast => (cast.name, cast))

namespace Indexes

/-- The objects around the options of an index: the registry, its tables, a table, a
column and its indexes. -/
def enclosing : Nat := 5

structure Draft where
  unique : Option (Option Object) := none
  matching : Option (Option Object) := none
  ore : Option (Option Object) := none
  steVec : Option (Option Object) := none

private def options (depth : Nat) : Json.Reader (Option Object) :=
  Json.optional (Json.document depth)

def layout (depth : Nat) : Json.Layout Draft Indexes where
  name := "Indexes"
  fields := [
    ⟨"unique", (·.unique.isSome), (options depth).map fun o d => { d with unique := some o }⟩,
    ⟨"match", (·.matching.isSome), (options depth).map fun o d => { d with matching := some o }⟩,
    ⟨"ore", (·.ore.isSome), (options depth).map fun o d => { d with ore := some o }⟩,
    ⟨"ste_vec", (·.steVec.isSome), (options depth).map fun o d => { d with steVec := some o }⟩]
  complete _ d := .ok ⟨d.unique.join, d.matching.join, d.ore.join, d.steVec.join⟩

def reader (depth : Nat) : Json.Reader Indexes := (layout depth).reader {}

end Indexes

namespace ColumnSpec

structure Draft where
  cast : Option Cast := none
  indexes : Option Indexes := none

def layout (depth : Nat) : Json.Layout Draft ColumnSpec where
  name := "ColumnConfig"
  fields := [
    ⟨"cast_as", (·.cast.isSome), Cast.reader.map fun c d => { d with cast := some c }⟩,
    ⟨"indexes", (·.indexes.isSome),
      (Indexes.reader depth).map fun i d => { d with indexes := some i }⟩]
  complete _ d := .ok ⟨d.cast.getD .text, d.indexes.getD {}⟩

def reader (depth : Nat) : Json.Reader ColumnSpec := (layout depth).reader {}

end ColumnSpec

namespace Registry

structure Draft where
  version : Option UInt32 := none
  tables : Option (NameMap TableSpec) := none

def layout (depth : Nat) : Json.Layout Draft Registry where
  name := "EncryptConfig"
  fields := [
    ⟨"v", (·.version.isSome), Json.word32.map fun n d => { d with version := some n }⟩,
    ⟨"tables", (·.tables.isSome),
      (Json.mapOf (Json.mapOf (ColumnSpec.reader depth))).map fun t d => { d with tables := some t }⟩]
  complete missing d := do
    return ⟨← Json.due (missing 0 "v") d.version, d.tables.getD ∅⟩

def reader : Json.Reader Registry :=
  (layout (Json.nestingLimit - Indexes.enclosing)).reader {}

def ofBytes (text : Bytes) : Except Refusal Registry :=
  match reader.readAll text with
  | .error e => .error (.invalidRegistry (.json e))
  | .ok r => do
    r.validate
    return r

def ofString (text : String) : Except Refusal Registry :=
  ofBytes (Bytes.ofString text)

def ofFile (path : String) (content : Option Bytes) : Except Refusal Registry :=
  match content with
  | none => .error (.unreadableFile path .missing)
  | some data =>
    match Bytes.text? data with
    | none => .error (.unreadableFile path .notText)
    | some text => ofString text

end Registry

end EncryptedColumns
