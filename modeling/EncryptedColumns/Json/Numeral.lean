import EncryptedColumns.Json.Reader

/-!
# Numbers

A numeral is read off the bytes first and valued afterwards. A plain whole number
that fits 64 bits keeps its value; every other numeral stands for a float.
-/

namespace EncryptedColumns.Json

/-- A number as it is spelled, digit by digit. There are no fraction digits when there
is no point. The exponent carries its sign. -/
structure Numeral where
  negative : Bool
  whole : List Nat
  fraction : List Nat
  exponent : Option (Bool × List Nat)
  deriving DecidableEq

/-! ## Reading the digits -/

def digit? (b : UInt8) : Option Nat :=
  let c := Char.ofUInt8 b
  if c.isDigit then some (c.toNat - '0'.toNat) else none

def digits : Bytes → List Nat × Bytes
  | [] => ([], [])
  | b :: bs =>
    match digit? b with
    | some d => (d :: (digits bs).1, (digits bs).2)
    | none => ([], b :: bs)

def digitsDue (atEnd : Fault) (bs : Bytes) : Except Fault (List Nat × Bytes) :=
  match digits bs with
  | ([], []) => .error atEnd
  | ([], _ :: _) => .error .invalidNumber
  | (ds, rest) => .ok (ds, rest)

def wholePart (atEnd : Fault) (bs : Bytes) : Except Fault (List Nat × Bytes) := do
  let (ds, rest) ← digitsDue atEnd bs
  match ds with
  | 0 :: _ :: _ => throw .invalidNumber
  | _ => return (ds, rest)

def fractionPart (atEnd : Fault) (bs : Bytes) : Except Fault (List Nat × Bytes) :=
  match bs with
  | b :: rest => if Char.ofUInt8 b = '.' then digitsDue atEnd rest else .ok ([], bs)
  | [] => .ok ([], [])

def exponentSign (bs : Bytes) : Bool × Bytes :=
  match bs with
  | b :: rest =>
    match Char.ofUInt8 b with
    | '-' => (true, rest)
    | '+' => (false, rest)
    | _ => (false, bs)
  | [] => (false, [])

def exponentPart (atEnd : Fault) (bs : Bytes) :
    Except Fault (Option (Bool × List Nat) × Bytes) :=
  match bs with
  | b :: rest =>
    if Char.ofUInt8 b = 'e' ∨ Char.ofUInt8 b = 'E' then do
      let (ds, left) ← digitsDue atEnd (exponentSign rest).2
      return (some ((exponentSign rest).1, ds), left)
    else .ok (none, bs)
  | [] => .ok (none, [])

def minusSign (bs : Bytes) : Bool × Bytes :=
  match bs with
  | b :: rest => if Char.ofUInt8 b = '-' then (true, rest) else (false, bs)
  | [] => (false, [])

def numeral (atEnd : Fault) (bs : Bytes) : Except Fault (Numeral × Bytes) := do
  let (whole, rest) ← wholePart atEnd (minusSign bs).2
  let (fraction, rest) ← fractionPart atEnd rest
  let (exponent, rest) ← exponentPart atEnd rest
  return (⟨(minusSign bs).1, whole, fraction, exponent⟩, rest)

/-! ## What the digits are worth -/

def significandMax : Nat := 0xFFFFFFFFFFFFFFFF

def exponentMax : Nat := 0x7FFFFFFF

/-- Takes digits into the significand up to the first that would make it too large,
and gives back the digits that found no place. -/
def collect (significand : Nat) : List Nat → Nat × List Nat
  | [] => (significand, [])
  | d :: ds =>
    if significand * 10 + d ≤ significandMax then collect (significand * 10 + d) ds
    else (significand, d :: ds)

def decimalValue (ds : List Nat) : Nat :=
  ds.foldl (fun n d => n * 10 + d) 0

namespace Numeral

/-- The significand and its power of ten, before the exponent. Whole digits without a
place raise the power, fraction digits without one are dropped. -/
def scaling (n : Numeral) : Nat × Int :=
  let (s, beyond) := collect 0 n.whole
  let (s, dropped) := collect s n.fraction
  (s, (beyond.length : Int) - ((n.fraction.length : Int) - dropped.length))

def float? (n : Numeral) : Option Double :=
  let (s, power) := n.scaling
  match n.exponent with
  | none => Double.scaled? n.negative s power
  | some (negative, ds) =>
    let e := decimalValue ds
    if e ≤ exponentMax then Double.scaled? n.negative s (if negative then power - e else power + e)
    else if negative || s == 0 then Double.scaled? n.negative 0 0
    else none

/-- The value of a plain whole number. Zero with a sign is none. -/
def whole? (n : Numeral) : Option Number :=
  match n.fraction, n.exponent with
  | [], none =>
    let v : Int := if n.negative then -(decimalValue n.whole : Int) else decimalValue n.whole
    if n.negative && v == 0 then none
    else if h : -0x8000000000000000 ≤ v ∧ v < 0x10000000000000000 then some (.whole v h)
    else none
  | _, _ => none

def value (n : Numeral) : Except Fault Number :=
  match n.whole? with
  | some v => .ok v
  | none =>
    match n.float? with
    | some x => .ok (.float x)
    | none => .error .numberOutOfRange

end Numeral

/-! ## Digits are taken, never added -/

theorem length_digits (bs : Bytes) : (digits bs).1.length + (digits bs).2.length = bs.length := by
  induction bs with
  | nil => rfl
  | cons b bs ih =>
    simp only [digits]
    split <;> simp
    omega

theorem length_digitsDue {e : Fault} {bs rest : Bytes} {ds : List Nat}
    (h : digitsDue e bs = .ok (ds, rest)) : rest.length < bs.length := by
  have := length_digits bs
  unfold digitsDue at h
  split at h
  · cases h
  · cases h
  · rename_i ds' rest' hne _ hd
    cases h
    rw [hd] at this
    cases ds with
    | nil => cases rest <;> simp_all
    | cons d ds => simp at this; omega

theorem length_wholePart {e : Fault} {bs rest : Bytes} {ds : List Nat}
    (h : wholePart e bs = .ok (ds, rest)) : rest.length < bs.length := by
  obtain ⟨⟨ds', rest'⟩, hd, h⟩ := bind_eq_ok.1 h
  have := length_digitsDue hd
  dsimp only at h
  split at h <;> cases h
  exact this

theorem length_fractionPart_le {e : Fault} {bs rest : Bytes} {ds : List Nat}
    (h : fractionPart e bs = .ok (ds, rest)) : rest.length ≤ bs.length := by
  unfold fractionPart at h
  split at h
  · split at h
    · have := length_digitsDue h
      simp only [List.length_cons]
      omega
    · cases h; simp
  · cases h; simp

theorem length_exponentSign_le (bs : Bytes) : (exponentSign bs).2.length ≤ bs.length := by
  unfold exponentSign
  split
  · split <;> simp
  · simp

theorem length_exponentPart_le {e : Fault} {bs rest : Bytes} {x : Option (Bool × List Nat)}
    (h : exponentPart e bs = .ok (x, rest)) : rest.length ≤ bs.length := by
  unfold exponentPart at h
  split at h
  · rename_i b bs'
    split at h
    · obtain ⟨⟨ds, r⟩, hd, h⟩ := bind_eq_ok.1 h
      cases h
      have := length_digitsDue hd
      have := length_exponentSign_le bs'
      simp only [List.length_cons]
      omega
    · cases h; simp
  · cases h; simp

theorem length_minusSign_le (bs : Bytes) : (minusSign bs).2.length ≤ bs.length := by
  unfold minusSign
  split
  · split <;> simp
  · simp

theorem length_numeral {e : Fault} {bs rest : Bytes} {n : Numeral}
    (h : numeral e bs = .ok (n, rest)) : rest.length < bs.length := by
  obtain ⟨⟨w, r₁⟩, hw, h⟩ := bind_eq_ok.1 h
  obtain ⟨⟨f, r₂⟩, hf, h⟩ := bind_eq_ok.1 h
  obtain ⟨⟨x, r₃⟩, hx, h⟩ := bind_eq_ok.1 h
  cases h
  have := length_minusSign_le bs
  have := length_wholePart hw
  have := length_fractionPart_le hf
  have := length_exponentPart_le hx
  omega

end EncryptedColumns.Json
