import EncryptedColumns.Json.Basic
import EncryptedColumns.Double.Layout
import EncryptedColumns.Text.Quoted

/-!
# What can be wrong with a JSON text

A text is read from left to right and the first fault is reported: an end that
comes too early, a byte that cannot stand where it does, or a value that its
target does not hold.
-/

namespace EncryptedColumns.Json

/-- Floats are written without an exponent from `0.00001` to just below `10 ^ 16`. -/
def floatLayout : FloatLayout := ⟨-5, 15⟩

inductive Found where
  | null
  | bool (b : Bool)
  | whole (n : Int)
  | float (x : Double)
  | string (s : String)
  | sequence
  | map
  deriving DecidableEq

inductive Fault where
  | endInValue
  | endInList
  | endInObject
  | endInString
  | expectedValue
  | expectedIdent
  | expectedColon
  | expectedListCommaOrEnd
  | expectedObjectCommaOrEnd
  | keyNotString
  | trailingComma
  | trailingCharacters
  | controlCharacter
  | invalidEscape
  | invalidCodePoint
  | loneSurrogate
  | unpairedSurrogate
  | invalidNumber
  | numberOutOfRange
  | tooDeep
  | invalidType (found : Found) (expected : String)
  | invalidWhole (found : Int) (expected : String)
  | invalidLength (found : Nat) (record : String) (size : Nat)
  | missingField (name : String)
  | duplicateField (name : String)
  | unknownVariant (name : String) (known : List String)
  deriving DecidableEq

/-! ## Wording -/

namespace Found

def ofJson : Json → Found
  | .null => .null
  | .bool b => .bool b
  | .number (.whole n _) => .whole n
  | .number (.float x) => .float x
  | .string s => .string s
  | .array _ => .sequence
  | .object _ => .map

def message : Found → String
  | .null => "null"
  | .bool b => "boolean `" ++ (if b then "true" else "false") ++ "`"
  | .whole n => "integer `" ++ n.repr ++ "`"
  | .float x => "floating point `" ++ floatLayout.write x ++ "`"
  | .string s => "string " ++ Text.quoted s
  | .sequence => "sequence"
  | .map => "map"

end Found

private def alternatives (names : List String) : String :=
  match names.map fun name => "`" ++ name ++ "`" with
  | [a] => a
  | [a, b] => a ++ " or " ++ b
  | all => "one of " ++ ", ".intercalate all

def Fault.message : Fault → String
  | .endInValue => "EOF while parsing a value"
  | .endInList => "EOF while parsing a list"
  | .endInObject => "EOF while parsing an object"
  | .endInString => "EOF while parsing a string"
  | .expectedValue => "expected value"
  | .expectedIdent => "expected ident"
  | .expectedColon => "expected `:`"
  | .expectedListCommaOrEnd => "expected `,` or `]`"
  | .expectedObjectCommaOrEnd => "expected `,` or `\x7d`"
  | .keyNotString => "key must be a string"
  | .trailingComma => "trailing comma"
  | .trailingCharacters => "trailing characters"
  | .controlCharacter => "control character (\\u0000-\\u001F) found while parsing a string"
  | .invalidEscape => "invalid escape"
  | .invalidCodePoint => "invalid unicode code point"
  | .loneSurrogate => "lone leading surrogate in hex escape"
  | .unpairedSurrogate => "unexpected end of hex escape"
  | .invalidNumber => "invalid number"
  | .numberOutOfRange => "number out of range"
  | .tooDeep => "recursion limit exceeded"
  | .invalidType found expected => "invalid type: " ++ found.message ++ ", expected " ++ expected
  | .invalidWhole n expected => "invalid value: integer `" ++ n.repr ++ "`, expected " ++ expected
  | .invalidLength n record size =>
    "invalid length " ++ n.repr ++ ", expected struct " ++ record ++ " with " ++ size.repr ++ " elements"
  | .missingField name => "missing field `" ++ name ++ "`"
  | .duplicateField name => "duplicate field `" ++ name ++ "`"
  | .unknownVariant name known => "unknown variant `" ++ name ++ "`, expected " ++ alternatives known

end EncryptedColumns.Json
