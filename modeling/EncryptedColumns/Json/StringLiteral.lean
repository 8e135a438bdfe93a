import EncryptedColumns.Json.Reader

/-!
# String literals

The content of a string runs to the closing quote. Reading undoes the escapes and
checks that the bytes between the quotes are text; passing over a string checks
only how it is spelled.
-/

namespace EncryptedColumns.Json

/-! ## Escapes -/

def shortEscape : Char → Option Char
  | '"' => some '"'
  | '\\' => some '\\'
  | '/' => some '/'
  | 'b' => some '\x08'
  | 'f' => some '\x0c'
  | 'n' => some '\n'
  | 'r' => some '\r'
  | 't' => some '\t'
  | _ => none

def hexDigit? (b : UInt8) : Option Nat :=
  let c := Char.ofUInt8 b
  if c.isDigit then some (c.toNat - '0'.toNat)
  else if 'a' ≤ c ∧ c ≤ 'f' then some (c.toNat - 'a'.toNat + 10)
  else if 'A' ≤ c ∧ c ≤ 'F' then some (c.toNat - 'A'.toNat + 10)
  else none

def hexUnit : Bytes → Except Fault (Nat × Bytes)
  | a :: b :: c :: d :: rest =>
    match hexDigit? a, hexDigit? b, hexDigit? c, hexDigit? d with
    | some a, some b, some c, some d => .ok (((a * 16 + b) * 16 + c) * 16 + d, rest)
    | _, _, _, _ => .error .invalidEscape
  | _ => .error .endInString

def isHighSurrogate (n : Nat) : Bool := 0xd800 ≤ n && n ≤ 0xdbff

def isLowSurrogate (n : Nat) : Bool := 0xdc00 ≤ n && n ≤ 0xdfff

def secondEscape : Bytes → Except Fault Bytes
  | [] => .error .endInString
  | b :: rest =>
    if Char.ofUInt8 b = '\\' then
      match rest with
      | [] => .error .endInString
      | u :: rest => if Char.ofUInt8 u = 'u' then .ok rest else .error .unpairedSurrogate
    else .error .unpairedSurrogate

def hexEscape (bs : Bytes) : Except Fault (Char × Bytes) := do
  let (high, rest) ← hexUnit bs
  if isLowSurrogate high then throw .loneSurrogate
  else if isHighSurrogate high then
    let (low, rest) ← hexUnit (← secondEscape rest)
    if isLowSurrogate low then
      return (Char.ofNat (0x10000 + (high - 0xd800) * 0x400 + (low - 0xdc00)), rest)
    else throw .loneSurrogate
  else return (Char.ofNat high, rest)

def escape : Bytes → Except Fault (Char × Bytes)
  | [] => .error .endInString
  | b :: rest =>
    if Char.ofUInt8 b = 'u' then hexEscape rest
    else match shortEscape (Char.ofUInt8 b) with
      | some c => .ok (c, rest)
      | none => .error .invalidEscape

def skipEscape : Bytes → Except Fault Bytes
  | [] => .error .endInString
  | b :: rest =>
    if Char.ofUInt8 b = 'u' then do
      let (_, rest) ← hexUnit rest
      return rest
    else match shortEscape (Char.ofUInt8 b) with
      | some _ => .ok rest
      | none => .error .invalidEscape

theorem length_hexUnit {bs rest : Bytes} {n : Nat} (h : hexUnit bs = .ok (n, rest)) :
    rest.length < bs.length := by
  unfold hexUnit at h
  split at h
  · split at h <;> cases h
    simp only [List.length_cons]
    omega
  · cases h

theorem length_secondEscape {bs rest : Bytes} (h : secondEscape bs = .ok rest) :
    rest.length < bs.length := by
  unfold secondEscape at h
  split at h
  · cases h
  · split at h
    · split at h
      · cases h
      · split at h <;> cases h
        simp only [List.length_cons]
        omega
    · cases h

theorem length_hexEscape {bs rest : Bytes} {c : Char} (h : hexEscape bs = .ok (c, rest)) :
    rest.length < bs.length := by
  obtain ⟨⟨high, r⟩, hh, h⟩ := bind_eq_ok.1 h
  have := length_hexUnit hh
  dsimp only at h
  split at h
  · cases h
  · split at h
    · obtain ⟨r₁, hs, h⟩ := bind_eq_ok.1 h
      obtain ⟨⟨low, r₂⟩, hl, h⟩ := bind_eq_ok.1 h
      have := length_secondEscape hs
      have := length_hexUnit hl
      dsimp only at h
      split at h
      · rw [← (Prod.mk.inj (Except.ok.inj h)).2]
        omega
      · cases h
    · rw [← (Prod.mk.inj (Except.ok.inj h)).2]
      assumption

theorem length_escape {bs rest : Bytes} {c : Char} (h : escape bs = .ok (c, rest)) :
    rest.length < bs.length := by
  unfold escape at h
  split at h
  · cases h
  · split at h
    · have := length_hexEscape h
      simp only [List.length_cons]
      omega
    · split at h <;> cases h
      simp

theorem length_skipEscape {bs rest : Bytes} (h : skipEscape bs = .ok rest) :
    rest.length < bs.length := by
  unfold skipEscape at h
  split at h
  · cases h
  · split at h
    · obtain ⟨⟨n, r⟩, hh, h⟩ := bind_eq_ok.1 h
      cases h
      have := length_hexUnit hh
      simp only [List.length_cons]
      omega
    · split at h <;> cases h
      simp

/-! ## Content -/

/-- Reads on after the opening quote. The bytes read so far are kept in reverse. -/
def content (read : Bytes) (bs : Bytes) : Except Fault (String × Bytes) :=
  match bs with
  | [] => .error .endInString
  | b :: rest =>
    if Char.ofUInt8 b = '"' then
      match Bytes.text? read.reverse with
      | some s => .ok (s, rest)
      | none => .error .invalidCodePoint
    else if Char.ofUInt8 b = '\\' then
      match h : escape rest with
      | .ok (c, left) =>
        have := length_escape h
        content ((String.utf8EncodeChar c).reverse ++ read) left
      | .error e => .error e
    else if b < 0x20 then .error .controlCharacter
    else content (b :: read) rest
termination_by bs.length

def skipContent (bs : Bytes) : Except Fault Bytes :=
  match bs with
  | [] => .error .endInString
  | b :: rest =>
    if Char.ofUInt8 b = '"' then .ok rest
    else if Char.ofUInt8 b = '\\' then
      match h : skipEscape rest with
      | .ok left =>
        have := length_skipEscape h
        skipContent left
      | .error e => .error e
    else if b < 0x20 then .error .controlCharacter
    else skipContent rest
termination_by bs.length

theorem length_content {read bs rest : Bytes} {s : String}
    (h : content read bs = .ok (s, rest)) : rest.length < bs.length := by
  fun_induction content read bs with
  | case1 => cases h
  | case2 | case3 =>
    split at h <;> cases h
    simp
  | case4 read b bs _ _ c left he _ ih =>
    have := length_escape he
    have := ih h
    simp only [List.length_cons]
    omega
  | case5 => cases h
  | case6 => cases h
  | case7 read b bs _ _ _ ih =>
    have := ih h
    simp only [List.length_cons]
    omega

theorem length_skipContent {bs rest : Bytes} (h : skipContent bs = .ok rest) :
    rest.length < bs.length := by
  fun_induction skipContent bs with
  | case1 => cases h
  | case2 => cases h; simp
  | case3 b bs _ _ left he _ ih =>
    have := length_skipEscape he
    have := ih h
    simp only [List.length_cons]
    omega
  | case4 => cases h
  | case5 => cases h
  | case6 b bs _ _ _ ih =>
    have := ih h
    simp only [List.length_cons]
    omega

end EncryptedColumns.Json
