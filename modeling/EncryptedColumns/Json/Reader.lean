import EncryptedColumns.Bytes
import EncryptedColumns.Json.Fault

/-!
# Readers

A reader takes a value off the front of the bytes that are left. It always takes
at least one byte, which is why lists of values can be read to their end.
-/

namespace EncryptedColumns

theorem bind_eq_ok {ε α β : Type} {x : Except ε α} {f : α → Except ε β} {b : β} :
    (x >>= f) = .ok b ↔ ∃ a, x = .ok a ∧ f a = .ok b := by
  cases x <;> simp [bind, Except.bind]

theorem map_eq_ok {ε α β : Type} {x : Except ε α} {f : α → β} {b : β} :
    x.map f = .ok b ↔ ∃ a, x = .ok a ∧ f a = b := by
  cases x <;> simp [Except.map]

namespace Json

structure Reader (α : Type) where
  run : Bytes → Except Fault (α × Bytes)
  consumes : ∀ {bs a rest}, run bs = .ok (a, rest) → rest.length < bs.length

def Reader.map {α β : Type} (f : α → β) (r : Reader α) : Reader β where
  run bs := do
    let (a, rest) ← r.run bs
    return (f a, rest)
  consumes h := by
    obtain ⟨⟨a, rest⟩, h, e⟩ := bind_eq_ok.1 h
    cases e
    exact r.consumes h

def isBlank (b : UInt8) : Bool :=
  match Char.ofUInt8 b with
  | ' ' | '\n' | '\t' | '\r' => true
  | _ => false

def skipBlanks (bs : Bytes) : Bytes :=
  bs.dropWhile isBlank

theorem length_skipBlanks_le (bs : Bytes) : (skipBlanks bs).length ≤ bs.length :=
  (List.dropWhile_suffix _).length_le

theorem length_lt_of_skipBlanks {bs rest : Bytes} {b : UInt8} (h : skipBlanks bs = b :: rest) :
    rest.length < bs.length := by
  have := length_skipBlanks_le bs
  rw [h] at this
  exact this

def Reader.readAll {α : Type} (r : Reader α) (bs : Bytes) : Except Fault α := do
  let (a, rest) ← r.run bs
  match skipBlanks rest with
  | [] => return a
  | _ :: _ => throw .trailingCharacters

def word : List Char → Bytes → Except Fault Bytes
  | [], bs => .ok bs
  | _ :: _, [] => .error .endInValue
  | c :: cs, b :: bs => if Char.ofUInt8 b = c then word cs bs else .error .expectedIdent

theorem length_word_le {cs : List Char} {bs rest : Bytes} (h : word cs bs = .ok rest) :
    rest.length ≤ bs.length := by
  induction cs generalizing bs with
  | nil => cases h; simp
  | cons c cs ih =>
    cases bs with
    | nil => cases h
    | cons b bs =>
      simp only [word] at h
      split at h
      · exact Nat.le_succ_of_le (ih h)
      · cases h

end Json

end EncryptedColumns
