import EncryptedColumns.Json.Scalar
import EncryptedColumns.Json.Sequence

/-!
# Reading values

A value is read with an allowance of levels: each array and each object around it
takes one, and where none is left no further one may open. A key that comes again
gives its field the later value.
-/

namespace EncryptedColumns.Json

def nestingLimit : Nat := 127

def gather (value : Reader Json) : FieldStep Object := fun o key =>
  .ok (value.map fun v => o.insert key v)

/-- One value, where `inner` reads the values inside it if a level is left. -/
def level (inner : Option (Reader Json)) : Reader Json where
  run bs := do
    let (l, b, rest) ← lead bs
    match l, inner with
    | .scalar s, _ => s.read b rest
    | _, none => throw .tooDeep
    | .array, some item => do
      let (items, rest) ← elements item rest
      return (.array items, rest)
    | .object, some value => do
      let (fields, rest) ← members (gather value) [] rest
      return (.object fields, rest)
  consumes h := by
    obtain ⟨⟨l, b, r⟩, hl, h⟩ := bind_eq_ok.1 h
    have := length_lead hl
    dsimp only at h
    split at h
    · have := Scalar.length_read_le h
      omega
    · cases h
    · obtain ⟨⟨items, r'⟩, he, h⟩ := bind_eq_ok.1 h
      cases h
      exact Nat.lt_trans (length_elements he) this
    · obtain ⟨⟨fields, r'⟩, hm, h⟩ := bind_eq_ok.1 h
      cases h
      exact Nat.lt_trans (length_members hm) this

def value : Nat → Reader Json
  | 0 => level none
  | n + 1 => level (some (value n))

def parse (bs : Bytes) : Except Fault Json :=
  (value nestingLimit).readAll bs

end EncryptedColumns.Json
