import EncryptedColumns.Kind

/-!
# Casts

The type that a column decrypts to. Three casts share the integers and differ in
the range they hold.
-/

namespace EncryptedColumns

inductive Cast where
  | text
  | int
  | smallInt
  | bigInt
  | boolean
  | jsonb
  deriving DecidableEq

namespace Cast

def all : List Cast := [.text, .int, .smallInt, .bigInt, .boolean, .jsonb]

def name : Cast → String
  | .text => "text"
  | .int => "int"
  | .smallInt => "small_int"
  | .bigInt => "big_int"
  | .boolean => "boolean"
  | .jsonb => "jsonb"

def kind : Cast → Kind
  | .text => .text
  | .int | .smallInt | .bigInt => .integer
  | .boolean => .boolean
  | .jsonb => .document

def range? : Cast → Option (Int64 × Int64)
  | .smallInt => some (-0x8000, 0x7FFF)
  | .int => some (-0x80000000, 0x7FFFFFFF)
  | .bigInt => some (Int64.minValue, Int64.maxValue)
  | .text | .boolean | .jsonb => none

def holds (cast : Cast) (n : Int64) : Bool :=
  match cast.range? with
  | some (least, greatest) => least ≤ n && n ≤ greatest
  | none => true

end Cast

end EncryptedColumns
