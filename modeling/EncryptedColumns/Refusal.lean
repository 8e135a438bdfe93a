import EncryptedColumns.Integer
import EncryptedColumns.Json.Printer
import EncryptedColumns.Json.Record
import EncryptedColumns.QueryMode
import EncryptedColumns.Registry.Cast

/-!
# Refusals

Why a value, a payload, a name or a registry is not accepted. A refusal is a
cause; its wording is in one place.
-/

namespace EncryptedColumns

inductive PayloadFault where
  | json (fault : Json.Fault)
  | notAnObject
  | rowHolds (column : String) (held : Json)
  | cellHolds (column : String) (type : String)
  deriving DecidableEq

inductive RegistryFault where
  | json (fault : Json.Fault)
  | unsupportedVersion (version : UInt32)
  deriving DecidableEq

inductive FileFault where
  | missing
  | notText
  deriving DecidableEq

inductive NotPlaintext where
  | number (n : Json.Number)
  | array
  | null
  deriving DecidableEq

inductive Refusal where
  | unsupportedType (value : NotPlaintext)
  | unreadableJson (fault : Json.Fault)
  | malformedEnvelope (fault : PayloadFault)
  | missingPlaintext
  | malformedNumber (text : String) (fault : Integer.Fault)
  | malformedBoolean (text : String)
  | malformedDocument (fault : Json.Fault)
  | invalidIdentifier (name : String)
  | unknownColumn (table column : String)
  | indexNotConfigured (table column : String) (mode : QueryMode)
  | kindMismatch (table column : String) (expected got : Kind)
  | outOfRange (table column : String) (cast : Cast) (value : Int64)
  | invalidRegistry (fault : RegistryFault)
  | unreadableFile (path : String) (fault : FileFault)
  | noSuchCell (index : Nat)
  deriving DecidableEq

def readJson {α : Type} (target : Json.Reader α) (text : String) : Except Refusal α :=
  match target.readAll (Bytes.ofString text) with
  | .ok a => .ok a
  | .error e => .error (.unreadableJson e)

/-! ## Wording -/

def PayloadFault.message : PayloadFault → String
  | .json fault => fault.message
  | .notAnObject => "expected a JSON object"
  | .rowHolds column held => "column " ++ column ++ " holds " ++ held.compact
  | .cellHolds column type => "column " ++ column ++ " holds a " ++ type ++ " value"

def RegistryFault.message : RegistryFault → String
  | .json fault => fault.message
  | .unsupportedVersion version => "unsupported config version " ++ version.toNat.repr

def FileFault.message : FileFault → String
  | .missing => "No such file or directory (os error 2)"
  | .notText => "stream did not contain valid UTF-8"

def NotPlaintext.message : NotPlaintext → String
  | .number n => "number " ++ n.text
  | .array => "array"
  | .null => "null"

private def columnName (table column : String) : String :=
  "Column " ++ table ++ "." ++ column

def Refusal.message : Refusal → String
  | .unsupportedType value => "Unsupported plaintext type: " ++ value.message
  | .unreadableJson fault => "Serialization error: " ++ fault.message
  | .malformedEnvelope fault => "Malformed envelope: " ++ fault.message
  | .missingPlaintext => "Invalid format: missing 'p' field"
  | .malformedNumber text fault =>
    "Invalid number format in 'p' field: " ++ Text.quoted text ++ ": " ++ fault.message
  | .malformedBoolean text => "Invalid boolean format in 'p' field: " ++ Text.quoted text
  | .malformedDocument fault => "Error parsing 'p' JSON string: " ++ fault.message
  | .invalidIdentifier name => "Invalid identifier " ++ Text.quoted name
  | .unknownColumn table column => columnName table column ++ " is not configured for encryption"
  | .indexNotConfigured table column mode =>
    columnName table column ++ " has no " ++ mode.indexName ++ " index"
  | .kindMismatch table column expected got =>
    columnName table column ++ " is cast as " ++ expected.name ++ ", got a " ++ got.name ++ " operand"
  | .outOfRange table column cast value =>
    columnName table column ++ " is cast as " ++ cast.name ++ ", " ++ Integer.write value ++
      " is out of range"
  | .invalidRegistry fault => "Invalid encrypt config: " ++ fault.message
  | .unreadableFile path fault => "IO error reading " ++ path ++ ": " ++ fault.message
  | .noSuchCell index => "SQLite error: Invalid column index: " ++ index.repr

end EncryptedColumns
