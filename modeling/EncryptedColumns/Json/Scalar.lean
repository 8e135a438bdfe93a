import EncryptedColumns.Json.Numeral
import EncryptedColumns.Json.StringLiteral

/-!
# Scalars

The first byte of a value says what the value is. Everything but an array or an
object is read here, or passed over with only its spelling checked.
-/

namespace EncryptedColumns.Json

inductive Scalar where
  | null
  | yes
  | no
  | number
  | string
  deriving DecidableEq

inductive Lead where
  | scalar (s : Scalar)
  | array
  | object
  deriving DecidableEq

def Lead.of? (b : UInt8) : Option Lead :=
  match Char.ofUInt8 b with
  | 'n' => some (.scalar .null)
  | 't' => some (.scalar .yes)
  | 'f' => some (.scalar .no)
  | '"' => some (.scalar .string)
  | '-' => some (.scalar .number)
  | '[' => some .array
  | '{' => some .object
  | c => if c.isDigit then some (.scalar .number) else none

/-- Looks at the value that is due: what it is, its first byte and what follows. -/
def lead (bs : Bytes) : Except Fault (Lead × UInt8 × Bytes) :=
  match skipBlanks bs with
  | [] => .error .endInValue
  | b :: rest =>
    match Lead.of? b with
    | some l => .ok (l, b, rest)
    | none => .error .expectedValue

theorem length_lead {bs rest : Bytes} {l : Lead} {b : UInt8} (h : lead bs = .ok (l, b, rest)) :
    rest.length < bs.length := by
  unfold lead at h
  split at h
  · cases h
  · rename_i hb
    split at h <;> cases h
    exact length_lt_of_skipBlanks hb

namespace Scalar

def read (s : Scalar) (b : UInt8) (rest : Bytes) : Except Fault (Json × Bytes) :=
  match s with
  | .null => do return (.null, ← word ['u', 'l', 'l'] rest)
  | .yes => do return (.bool true, ← word ['r', 'u', 'e'] rest)
  | .no => do return (.bool false, ← word ['a', 'l', 's', 'e'] rest)
  | .number => do
    let (n, rest) ← numeral .endInValue (b :: rest)
    return (.number (← n.value), rest)
  | .string => do
    let (s, rest) ← content [] rest
    return (.string s, rest)

/-- Numbers may be out of range and strings need not be text when they are passed over. -/
def skip (s : Scalar) (b : UInt8) (rest : Bytes) : Except Fault Bytes :=
  match s with
  | .null => word ['u', 'l', 'l'] rest
  | .yes => word ['r', 'u', 'e'] rest
  | .no => word ['a', 'l', 's', 'e'] rest
  | .number => do
    let (_, rest) ← numeral .invalidNumber (b :: rest)
    return rest
  | .string => skipContent rest

theorem length_read_le {s : Scalar} {b : UInt8} {rest left : Bytes} {j : Json}
    (h : s.read b rest = .ok (j, left)) : left.length ≤ rest.length := by
  cases s with
  | null | yes | no =>
    obtain ⟨r, hw, h⟩ := bind_eq_ok.1 h
    cases h
    exact length_word_le hw
  | number =>
    obtain ⟨⟨n, r⟩, hn, h⟩ := bind_eq_ok.1 h
    obtain ⟨v, _, h⟩ := bind_eq_ok.1 h
    cases h
    exact Nat.le_of_lt_succ (length_numeral hn)
  | string =>
    obtain ⟨⟨s, r⟩, hs, h⟩ := bind_eq_ok.1 h
    cases h
    exact Nat.le_of_lt (length_content hs)

theorem length_skip_le {s : Scalar} {b : UInt8} {rest left : Bytes}
    (h : s.skip b rest = .ok left) : left.length ≤ rest.length := by
  cases s with
  | null | yes | no => exact length_word_le h
  | number =>
    obtain ⟨⟨n, r⟩, hn, h⟩ := bind_eq_ok.1 h
    cases h
    exact Nat.le_of_lt_succ (length_numeral hn)
  | string => exact Nat.le_of_lt (length_skipContent h)

end Scalar

end EncryptedColumns.Json
