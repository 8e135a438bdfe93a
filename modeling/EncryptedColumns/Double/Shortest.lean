import EncryptedColumns.Double.Basic

/-!
# The shortest decimal of a float

A finite float stands for every real number that rounds to it, an interval around
its own value. Of the decimals in that interval one with the fewest digits is
chosen, and of those the one nearest to the value. The arithmetic is exact.
-/

namespace EncryptedColumns

/-- The number `digits * 10 ^ exponent`. -/
structure Decimal where
  digits : Nat
  exponent : Int
  deriving DecidableEq

private structure Ratio where
  num : Nat
  den : Nat

private def Ratio.scale (r : Ratio) (base : Nat) (power : Int) : Ratio :=
  if 0 ≤ power then ⟨r.num * Nat.pow base power.toNat, r.den⟩
  else ⟨r.num, r.den * Nat.pow base (-power).toNat⟩

private def Ratio.lead (r : Ratio) : Int :=
  if r.den ≤ r.num then (Nat.toDigits 10 (r.num / r.den)).length - 1
  else -((Nat.toDigits 10 ((r.den + r.num - 1) / r.num - 1)).length : Int)

/-! ## The interval of a float -/

namespace Double

/-- A float without its sign: `mantissa * 2 ^ exponent`. At an edge the floats below
lie twice as dense as those above. -/
structure Magnitude where
  mantissa : Nat
  exponent : Int
  edge : Bool
  deriving DecidableEq

def magnitude (x : Double) : Magnitude :=
  let bits : Nat := x.value.toBits.toNat
  let fraction : Nat := bits % 0x10000000000000
  let power : Nat := bits / 0x10000000000000 % 0x800
  if power = 0 then ⟨fraction, -1074, false⟩
  else ⟨0x10000000000000 + fraction, (power : Int) - 1075, fraction == 0 && power != 1⟩

namespace Magnitude

private def ratio (m : Magnitude) : Ratio :=
  Ratio.scale ⟨m.mantissa, 1⟩ 2 m.exponent

/-- Whether `digits * 10 ^ power` rounds to the float. The two ends of the interval do
so when the mantissa is even. -/
def admits (m : Magnitude) (digits : Nat) (power : Int) : Bool :=
  let low := Ratio.scale ⟨4 * m.mantissa - (if m.edge then 1 else 2), 4⟩ 2 m.exponent
  let high := Ratio.scale ⟨4 * m.mantissa + 2, 4⟩ 2 m.exponent
  let it := Ratio.scale ⟨digits, 1⟩ 10 power
  if m.mantissa % 2 = 0 then
    low.num * it.den ≤ it.num * low.den && it.num * high.den ≤ high.num * it.den
  else low.num * it.den < it.num * low.den && it.num * high.den < high.num * it.den

/-! ## The choice of digits -/

/-- The better of the value's two neighbours on the grid of step `10 ^ power`, if one
of them rounds to the float. Of two equally near ones the even one is taken. -/
def onGrid? (m : Magnitude) (power : Int) : Option Decimal :=
  let r := m.ratio.scale 10 (-power)
  let down := r.num / r.den
  let rest := 2 * (r.num % r.den)
  let upIsNearer := r.den < rest || (r.den == rest && down % 2 == 1)
  match m.admits down power, m.admits (down + 1) power with
  | true, true => some ⟨if upIsNearer then down + 1 else down, power⟩
  | true, false => some ⟨down, power⟩
  | false, true => some ⟨down + 1, power⟩
  | false, false => none

/-- Seventeen digits tell all floats apart, so the search ends on the last grid at the
latest. -/
def shortest (m : Magnitude) : Decimal :=
  if m.mantissa = 0 then ⟨0, 0⟩
  else ((List.range 17).findSome? fun (i : Nat) => m.onGrid? (m.ratio.lead - i)).getD ⟨0, 0⟩

end Magnitude

end Double

end EncryptedColumns
