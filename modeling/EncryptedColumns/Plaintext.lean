import EncryptedColumns.Json.Record
import EncryptedColumns.Refusal

/-!
# Plaintexts

A plaintext travels as a string: a text as it is, an integer in base ten, a boolean
as `true` or `false`, a document as compact JSON. The reader decides which kind
the string is read as; the string itself does not say.
-/

namespace EncryptedColumns

class Rendered (α : Type) where
  render : α → Except Refusal String

class Plaintext (α : Type) extends Rendered α where
  kind : Kind
  parse : String → Except Refusal α

export Rendered (render)

/-! ## The four kinds -/

namespace Kind

def write : (k : Kind) → k.Carrier → String
  | .text, s => s
  | .integer, n => Integer.write n
  | .boolean, b => if b then "true" else "false"
  | .document, o => (Json.object o).compact

def read : (k : Kind) → String → Except Refusal k.Carrier
  | .text, p => .ok p
  | .integer, p =>
    match Integer.read p with
    | .ok n => .ok n
    | .error e => .error (.malformedNumber p e)
  | .boolean, p =>
    if p = "true" then .ok true
    else if p = "false" then .ok false
    else .error (.malformedBoolean p)
  | .document, p =>
    match (Json.document Json.nestingLimit).readAll (Bytes.ofString p) with
    | .ok o => .ok o
    | .error e => .error (.malformedDocument e)

end Kind

instance Kind.plaintext (k : Kind) : Plaintext k.Carrier where
  render v := .ok (k.write v)
  kind := k
  parse := k.read

instance : Plaintext String := Kind.text.plaintext

instance : Plaintext Int64 := Kind.integer.plaintext

instance : Plaintext Bool := Kind.boolean.plaintext

instance : Plaintext Object := Kind.document.plaintext

/-! ## A plaintext of any kind -/

inductive PlainValue where
  | text (s : String)
  | integer (n : Int64)
  | boolean (b : Bool)
  | document (o : Object)
  deriving DecidableEq

namespace PlainValue

def kind : PlainValue → Kind
  | .text _ => .text
  | .integer _ => .integer
  | .boolean _ => .boolean
  | .document _ => .document

def ofKind : (k : Kind) → k.Carrier → PlainValue
  | .text, s => .text s
  | .integer, n => .integer n
  | .boolean, b => .boolean b
  | .document, o => .document o

def as? : (k : Kind) → PlainValue → Option k.Carrier
  | .text, .text s => some s
  | .integer, .integer n => some n
  | .boolean, .boolean b => some b
  | .document, .document o => some o
  | _, _ => none

def write : PlainValue → String
  | .text s => Kind.text.write s
  | .integer n => Kind.integer.write n
  | .boolean b => Kind.boolean.write b
  | .document o => Kind.document.write o

instance : Rendered PlainValue where
  render v := .ok v.write

def parse (k : Kind) (p : String) : Except Refusal PlainValue :=
  (k.read p).map (ofKind k)

/-! ## Plaintexts as JSON values -/

/-- Floats, whole numbers beyond 64 signed bits, arrays and null are no plaintexts. -/
def ofJson : Json → Except Refusal PlainValue
  | .string s => .ok (.text s)
  | .bool b => .ok (.boolean b)
  | .object o => .ok (.document o)
  | .number (.whole n range) =>
    if n < 0x8000000000000000 then .ok (.integer (Int64.ofInt n))
    else .error (.unsupportedType (.number (.whole n range)))
  | .number (.float x) => .error (.unsupportedType (.number (.float x)))
  | .array _ => .error (.unsupportedType .array)
  | .null => .error (.unsupportedType .null)

theorem range_toInt (n : Int64) : -0x8000000000000000 ≤ n.toInt ∧ n.toInt < 0x10000000000000000 := by
  have := n.le_toInt
  have := n.toInt_lt
  omega

def toJson : PlainValue → Json
  | .text s => .string s
  | .integer n => .number (.whole n.toInt (range_toInt n))
  | .boolean b => .bool b
  | .document o => .object o

end PlainValue

end EncryptedColumns
