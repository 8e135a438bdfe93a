import EncryptedColumns.Registry.Basic
import EncryptedColumns.Sql.Literal

/-!
# Migrations

The SQL statements that set up the proxy for a registry: its indexes, then the
switch to the new configuration, then a constraint on every encrypted column.
-/

namespace EncryptedColumns

namespace Sql

/-- A name between quotes, as it is: a checked name holds no quote to double. -/
def spliced (name : String) : String :=
  "'" ++ name ++ "'"

/-- Adds an index. Only the options are quoted, and they are left out when they are empty. -/
def addIndex (table column : String) (mode : QueryMode) (cast : Cast) (options : Object) : String :=
  "SELECT cs_add_index_v1(" ++ spliced table ++ ", " ++ spliced column ++ ", " ++
    spliced mode.indexName ++ ", " ++ spliced cast.name ++
    (if options.isEmpty then "" else ", " ++ literal (Json.object options).compact) ++ ");"

def encryptStatement : String := "SELECT cs_encrypt_v1();"

def activateStatement : String := "SELECT cs_activate_v1();"

def refreshStatement : String := "SELECT cs_refresh_encrypt_config();"

def addConstraint (table column : String) : String :=
  "ALTER TABLE " ++ table ++ " ADD CONSTRAINT " ++ column ++ "_encrypted_check CHECK ( " ++
    "cs_check_encrypted_v1(" ++ column ++ ") );"

end Sql

namespace Registry

namespace Entry

def indexStatements (e : Entry) : List String :=
  QueryMode.all.filterMap fun mode =>
    (e.spec.indexes.get? mode).map (Sql.addIndex e.table e.column mode e.spec.cast)

def constraintStatement (e : Entry) : String :=
  Sql.addConstraint e.table e.column

end Entry

def setupStatements (r : Registry) : Except Refusal (List String) := do
  return (← r.walk Entry.indexStatements).flatten ++ [Sql.encryptStatement, Sql.activateStatement]

def constraintStatements (r : Registry) : Except Refusal (List String) :=
  r.walk Entry.constraintStatement

def migrationStatements (r : Registry) : Except Refusal (List String) := do
  return (← r.setupStatements) ++ (← r.constraintStatements) ++ [Sql.refreshStatement]

end Registry

end EncryptedColumns
