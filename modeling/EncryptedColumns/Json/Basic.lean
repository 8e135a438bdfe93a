import EncryptedColumns.Double.Basic

/-!
# JSON values

A number is a whole number that fits 64 bits, signed or unsigned, or a finite
float. An object lists its fields in the order in which their keys first
appeared.
-/

namespace EncryptedColumns

inductive Json.Number where
  | whole (n : Int) (range : -0x8000000000000000 ≤ n ∧ n < 0x10000000000000000)
  | float (x : Double)
  deriving DecidableEq

inductive Json where
  | null
  | bool (b : Bool)
  | number (n : Json.Number)
  | string (s : String)
  | array (items : List Json)
  | object (fields : List (String × Json))

abbrev Object := List (String × Json)

/-! ## Equality -/

namespace Json

mutual

private def decEq : (a b : Json) → Decidable (a = b)
  | .null, .null => isTrue rfl
  | .bool a, .bool b => decidable_of_iff (a = b) (by simp)
  | .number a, .number b => decidable_of_iff (a = b) (by simp)
  | .string a, .string b => decidable_of_iff (a = b) (by simp)
  | .array a, .array b =>
    match decEqItems a b with
    | isTrue h => isTrue (by rw [h])
    | isFalse h => isFalse (by simpa using h)
  | .object a, .object b =>
    match decEqFields a b with
    | isTrue h => isTrue (by rw [h])
    | isFalse h => isFalse (by simpa using h)
  | .null, .bool _ | .null, .number _ | .null, .string _ | .null, .array _ | .null, .object _
  | .bool _, .null | .bool _, .number _ | .bool _, .string _ | .bool _, .array _ | .bool _, .object _
  | .number _, .null | .number _, .bool _ | .number _, .string _ | .number _, .array _
  | .number _, .object _
  | .string _, .null | .string _, .bool _ | .string _, .number _ | .string _, .array _
  | .string _, .object _
  | .array _, .null | .array _, .bool _ | .array _, .number _ | .array _, .string _
  | .array _, .object _
  | .object _, .null | .object _, .bool _ | .object _, .number _ | .object _, .string _
  | .object _, .array _ => isFalse (by simp)

private def decEqItems : (a b : List Json) → Decidable (a = b)
  | [], [] => isTrue rfl
  | [], _ :: _ => isFalse (by simp)
  | _ :: _, [] => isFalse (by simp)
  | a :: as, b :: bs =>
    match decEq a b, decEqItems as bs with
    | isTrue h, isTrue hs => isTrue (by rw [h, hs])
    | isFalse h, _ => isFalse (by simp [h])
    | _, isFalse hs => isFalse (by simp [hs])

private def decEqFields : (a b : List (String × Json)) → Decidable (a = b)
  | [], [] => isTrue rfl
  | [], _ :: _ => isFalse (by simp)
  | _ :: _, [] => isFalse (by simp)
  | (k, a) :: as, (l, b) :: bs =>
    if hk : k = l then
      match decEq a b, decEqFields as bs with
      | isTrue h, isTrue hs => isTrue (by rw [hk, h, hs])
      | isFalse h, _ => isFalse (by simp [h])
      | _, isFalse hs => isFalse (by simp [hs])
    else isFalse (by simp [hk])

end

instance : DecidableEq Json := decEq

mutual

/-- How many arrays and objects stand inside one another, the value itself included. -/
def nesting : Json → Nat
  | .array items => nestingOfItems items + 1
  | .object fields => nestingOfFields fields + 1
  | _ => 0

def nestingOfItems : List Json → Nat
  | [] => 0
  | j :: js => max j.nesting (nestingOfItems js)

def nestingOfFields : List (String × Json) → Nat
  | [] => 0
  | (_, j) :: fs => max j.nesting (nestingOfFields fs)

end

def string? : Json → Option String
  | .string s => some s
  | _ => none

end Json

/-! ## Fields of an object -/

namespace Object

def find? (o : Object) (key : String) : Option Json :=
  List.lookup key o

/-- A key that is there already keeps its place and takes the new value. -/
def insert (key : String) (value : Json) : Object → Object
  | [] => [(key, value)]
  | (k, v) :: o => if k = key then (k, value) :: o else (k, v) :: insert key value o

end Object

def Json.field? (j : Json) (key : String) : Option Json :=
  match j with
  | .object o => Object.find? o key
  | _ => none

end EncryptedColumns
