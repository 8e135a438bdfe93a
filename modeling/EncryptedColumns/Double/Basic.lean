/-!
# Finite floats

The 64-bit floats that a number in a document can hold: all but the infinities
and the one that is not a number.
-/

namespace EncryptedColumns

structure Double where
  value : Float
  finite : value.isFinite = true
  deriving DecidableEq

namespace Double

def ofFloat? (x : Float) : Option Double :=
  if h : x.isFinite = true then some ⟨x, h⟩ else none

def isNegative (x : Double) : Bool :=
  x.value.toBits >>> 63 == 1

private def tenTo (n : Nat) : Float :=
  Float.ofScientific 1 false n

def greatestPower : Nat := 308

private def divideOften : Nat → Float → Float
  | 0, x => x
  | n + 1, x => if x == 0 then x else divideOften n (x / tenTo greatestPower)

/-- The float `significand * 10 ^ exponent`, or its negative, where the significand, the power and
the result are each rounded on their own. A power below all floats is taken off in
several divisions; there is no answer when the result, or the power of a nonzero
significand, is too large. -/
def scaled? (negative : Bool) (significand : Nat) (exponent : Int) : Option Double :=
  let x := Float.ofNat significand
  let sign (y : Float) := if negative then -y else y
  let n := exponent.natAbs
  if 0 ≤ exponent then
    if n ≤ greatestPower then ofFloat? (sign (x * tenTo n))
    else if significand = 0 then ofFloat? (sign x)
    else none
  else
    let rounds := (n - 1) / greatestPower
    ofFloat? (sign (divideOften rounds x / tenTo (n - rounds * greatestPower)))

end Double

end EncryptedColumns
