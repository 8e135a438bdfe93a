import EncryptedColumns.Json.Basic

/-!
# Kinds of plaintext

Every plaintext is a text, an integer of 64 bits, a boolean or a JSON document.
-/

namespace EncryptedColumns

inductive Kind where
  | text
  | integer
  | boolean
  | document
  deriving DecidableEq

namespace Kind

def name : Kind → String
  | .text => "text"
  | .integer => "integer"
  | .boolean => "boolean"
  | .document => "document"

abbrev Carrier : Kind → Type
  | .text => String
  | .integer => Int64
  | .boolean => Bool
  | .document => Object

end Kind

end EncryptedColumns
