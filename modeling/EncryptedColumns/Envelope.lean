import EncryptedColumns.ColumnRef
import EncryptedColumns.Plaintext

/-!
# Envelopes

The JSON object that carries a plaintext to the proxy: a tag, the plaintext as a
string, the column it belongs to and the version of the format, always written in
this order and without blanks.
-/

namespace EncryptedColumns

inductive Tag where
  | plaintext
  | ciphertext
  deriving DecidableEq

namespace Tag

def name : Tag → String
  | .plaintext => "pt"
  | .ciphertext => "ct"

def ofName? (name : String) : Option Tag :=
  if name = "pt" then some .plaintext
  else if name = "ct" then some .ciphertext
  else none

def reader : Json.Reader Tag :=
  Json.oneOf [(plaintext.name, .plaintext), (ciphertext.name, .ciphertext)]

end Tag

structure Envelope where
  tag : String
  plaintext : String
  target : ColumnRef
  version : UInt32
  deriving DecidableEq

namespace Envelope

def currentVersion : UInt32 := 1

def wrap (p table column : String) : Envelope :=
  ⟨Tag.plaintext.name, p, ⟨table, column⟩, currentVersion⟩

theorem range_toNat (n : UInt32) : -0x8000000000000000 ≤ (n.toNat : Int) ∧ (n.toNat : Int) < 0x10000000000000000 := by
  have := n.toNat_lt
  omega

def fields (e : Envelope) : Object := [
  ("k", .string e.tag),
  ("p", .string e.plaintext),
  ("i", e.target.toJson),
  ("v", .number (.whole e.version.toNat (range_toNat e.version)))]

def toJson (e : Envelope) : Json :=
  .object e.fields

def write (e : Envelope) : String :=
  e.toJson.compact

structure Draft where
  tag : Option String := none
  plaintext : Option String := none
  target : Option ColumnRef := none
  version : Option UInt32 := none

def layout : Json.Layout Draft Envelope where
  name := "Envelope"
  fields := [
    ⟨"k", (·.tag.isSome), Json.text.map fun s d => { d with tag := some s }⟩,
    ⟨"p", (·.plaintext.isSome), Json.text.map fun s d => { d with plaintext := some s }⟩,
    ⟨"i", (·.target.isSome), ColumnRef.reader.map fun r d => { d with target := some r }⟩,
    ⟨"v", (·.version.isSome), Json.word32.map fun n d => { d with version := some n }⟩]
  complete missing d := do
    return ⟨← Json.due (missing 0 "k") d.tag, ← Json.due (missing 1 "p") d.plaintext,
      ← Json.due (missing 2 "i") d.target, ← Json.due (missing 3 "v") d.version⟩

def reader : Json.Reader Envelope := layout.reader {}

end Envelope

/-! ## Encoding -/

/-- The envelope text of a value for a column. The names are taken as they are. -/
def encode {α : Type} [Rendered α] (value : α) (table column : String) : Except Refusal String := do
  return (Envelope.wrap (← render value) table column).write

def encodeJson (value : Json) (table column : String) : Except Refusal String := do
  encode (← PlainValue.ofJson value) table column

section
variable {value : Json} {table column : String}

theorem encodeJson_eq_ok_iff {text : String} : encodeJson value table column = .ok text ↔
    ∃ v, PlainValue.ofJson value = .ok v ∧ (Envelope.wrap v.write table column).write = text := by
  rw [encodeJson]
  constructor
  · intro h
    obtain ⟨v, hv, h⟩ := bind_eq_ok.1 h
    exact ⟨v, hv, Except.ok.inj h⟩
  · rintro ⟨v, hv, rfl⟩
    exact bind_eq_ok.2 ⟨v, hv, rfl⟩

theorem encodeJson_eq_error_iff {e : Refusal} :
    encodeJson value table column = .error e ↔ PlainValue.ofJson value = .error e := by
  rw [encodeJson]
  cases PlainValue.ofJson value with
  | error e' =>
    constructor
    · intro h; cases h; rfl
    · intro h; cases h; rfl
  | ok v =>
    constructor
    · intro h; cases h
    · intro h; cases h

end

/-! ## Operands -/

/-- What a column is compared with under a mode. The mode shows in the SQL function around
the operand and not in the operand. -/
def operand {α : Type} [Rendered α] (value : α) (table column : String) (_mode : QueryMode) :
    Except Refusal String :=
  encode value table column

def pathOperand (path table column : String) : String :=
  (Envelope.wrap path table column).write

end EncryptedColumns
