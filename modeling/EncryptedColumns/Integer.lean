/-!
# Integers as text

An integer of 64 bits is written in base ten. It is read with an optional sign
and any number of leading zeros, and the first character that is no digit, or
that takes the number out of its bounds, is a fault.
-/

namespace EncryptedColumns.Integer

inductive Fault where
  | empty
  | invalidDigit
  | tooLarge
  | tooSmall
  deriving DecidableEq

def Fault.message : Fault → String
  | .empty => "cannot parse integer from empty string"
  | .invalidDigit => "invalid digit found in string"
  | .tooLarge => "number too large to fit in target type"
  | .tooSmall => "number too small to fit in target type"

def write (n : Int64) : String :=
  n.toInt.repr

/-- The size of a number, from its digits on top of those already read. -/
def size (limit : Nat) (beyond : Fault) (read : Nat) : List Char → Except Fault Nat
  | [] => .ok read
  | c :: cs =>
    if c.isDigit then
      let n := read * 10 + (c.toNat - '0'.toNat)
      if n ≤ limit then size limit beyond n cs else .error beyond
    else .error .invalidDigit

def read (s : String) : Except Fault Int64 :=
  match s.toList with
  | [] => .error .empty
  | ['+'] | ['-'] => .error .invalidDigit
  | '-' :: ds => (size 0x8000000000000000 .tooSmall 0 ds).map fun n => Int64.ofInt (-(n : Int))
  | '+' :: ds | ds => (size 0x7FFFFFFFFFFFFFFF .tooLarge 0 ds).map fun n => Int64.ofInt n

end EncryptedColumns.Integer
