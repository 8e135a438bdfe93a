import EncryptedColumns.Double.Shortest

/-!
# How floats are written

The digits are the shortest ones. What is left to say is where the point stands
and when an exponent is written.
-/

namespace EncryptedColumns

/-- No exponent is written while the first digit stands for `10 ^ low` to `10 ^ high`;
there is a fraction then, if only `.0`. -/
structure FloatLayout where
  low : Int
  high : Int

namespace FloatLayout

def zeros (n : Nat) : List Char := List.replicate n '0'

def positional (digits : List Char) (lead : Int) : List Char :=
  if lead < 0 then '0' :: '.' :: zeros ((-lead).toNat - 1) ++ digits
  else
    let whole := lead.toNat + 1
    if digits.length ≤ whole then digits ++ zeros (whole - digits.length) ++ ['.', '0']
    else digits.take whole ++ '.' :: digits.drop whole

def exponential (digits : List Char) (lead : Int) : List Char :=
  let significand := match digits with
    | d :: e :: ds => d :: '.' :: e :: ds
    | ds => ds
  significand ++ 'e' :: (if lead < 0 then '-' else '+') :: Nat.toDigits 10 lead.natAbs

def trimmed (digits : List Char) : List Char :=
  match (digits.reverse.dropWhile (· == '0')).reverse with
  | [] => ['0']
  | ds => ds

def write (layout : FloatLayout) (x : Double) : String :=
  let d := x.magnitude.shortest
  let digits := Nat.toDigits 10 d.digits
  let lead := if d.digits = 0 then 0 else d.exponent + digits.length - 1
  let body := if layout.low ≤ lead && lead ≤ layout.high then positional (trimmed digits) lead
    else exponential (trimmed digits) lead
  String.ofList (if x.isNegative then '-' :: body else body)

end FloatLayout

end EncryptedColumns
