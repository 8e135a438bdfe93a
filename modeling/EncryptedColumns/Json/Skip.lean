import EncryptedColumns.Json.Scalar
import EncryptedColumns.Json.Sequence

/-!
# Passing over values

A value that nothing asks for is passed over. The brackets that are open are kept
on a stack, so there is no limit to how deep it nests; its numbers and strings
need only be spelled well.
-/

namespace EncryptedColumns.Json

inductive Bracket where
  | square
  | curly
  deriving DecidableEq

namespace Bracket

def close : Bracket → Char
  | .square => ']'
  | .curly => '}'

def unclosed : Bracket → Fault
  | .square => .endInList
  | .curly => .endInObject

def unseparated : Bracket → Fault
  | .square => .expectedListCommaOrEnd
  | .curly => .expectedObjectCommaOrEnd

/-- Passes over a key and its colon, where the innermost open bracket asks for one. -/
def skipKey : List Bracket → Bytes → Except Fault Bytes
  | .curly :: _, bs =>
    match skipBlanks bs with
    | [] => .error .endInObject
    | b :: rest =>
      if Char.ofUInt8 b = '"' then do colon (← skipContent rest) else .error .keyNotString
  | _, bs => .ok bs

/-- Closes what a value ends. What is left open, if anything, goes on behind a comma. -/
def closeAll : List Bracket → Bytes → Except Fault (List Bracket × Bytes)
  | [], bs => .ok ([], bs)
  | k :: ks, bs =>
    match skipBlanks bs with
    | [] => .error k.unclosed
    | b :: rest =>
      if Char.ofUInt8 b = ',' then .ok (k :: ks, rest)
      else if Char.ofUInt8 b = k.close then closeAll ks rest
      else .error k.unseparated

def enter (k : Bracket) (ks : List Bracket) (bs : Bytes) : Except Fault (List Bracket × Bytes) :=
  match skipBlanks bs with
  | [] => .error k.unclosed
  | b :: rest => if Char.ofUInt8 b = k.close then closeAll ks rest else .ok (k :: ks, bs)

theorem length_skipKey_le {ks : List Bracket} {bs rest : Bytes} (h : skipKey ks bs = .ok rest) :
    rest.length ≤ bs.length := by
  unfold skipKey at h
  split at h
  · split at h
    · cases h
    · rename_i hb
      have := length_lt_of_skipBlanks hb
      split at h
      · obtain ⟨r, hs, h⟩ := bind_eq_ok.1 h
        have := length_skipContent hs
        have := length_colon h
        omega
      · cases h
  · cases h; simp

theorem length_closeAll_le {ks ls : List Bracket} {bs rest : Bytes}
    (h : closeAll ks bs = .ok (ls, rest)) : rest.length ≤ bs.length := by
  induction ks generalizing bs with
  | nil => cases h; simp
  | cons k ks ih =>
    simp only [closeAll] at h
    split at h
    · cases h
    · rename_i hb
      have := length_lt_of_skipBlanks hb
      split at h
      · cases h; omega
      · split at h
        · have := ih h
          omega
        · cases h

theorem length_enter_le {k : Bracket} {ks ls : List Bracket} {bs rest : Bytes}
    (h : enter k ks bs = .ok (ls, rest)) : rest.length ≤ bs.length := by
  unfold enter at h
  split at h
  · cases h
  · rename_i hb
    have := length_lt_of_skipBlanks hb
    split at h
    · have := length_closeAll_le h
      omega
    · cases h; simp

end Bracket

def skipOne (ks : List Bracket) (bs : Bytes) : Except Fault (List Bracket × Bytes) := do
  let (l, b, rest) ← lead (← Bracket.skipKey ks bs)
  match l with
  | .scalar s => Bracket.closeAll ks (← s.skip b rest)
  | .array => Bracket.enter .square ks rest
  | .object => Bracket.enter .curly ks rest

theorem length_skipOne {ks ls : List Bracket} {bs rest : Bytes}
    (h : skipOne ks bs = .ok (ls, rest)) : rest.length < bs.length := by
  obtain ⟨r, hk, h⟩ := bind_eq_ok.1 h
  obtain ⟨⟨l, b, r'⟩, hl, h⟩ := bind_eq_ok.1 h
  have := Bracket.length_skipKey_le hk
  have := length_lead hl
  dsimp only at h
  split at h
  · obtain ⟨r'', hs, h⟩ := bind_eq_ok.1 h
    have := Scalar.length_skip_le hs
    have := Bracket.length_closeAll_le h
    omega
  all_goals
    have := Bracket.length_enter_le h
    omega

def skipFrom (ks : List Bracket) (bs : Bytes) : Except Fault Bytes :=
  match h : skipOne ks bs with
  | .error e => .error e
  | .ok ([], rest) => .ok rest
  | .ok (l :: ls, rest) =>
    have := length_skipOne h
    skipFrom (l :: ls) rest
termination_by bs.length

theorem length_skipFrom {ks : List Bracket} {bs rest : Bytes} (h : skipFrom ks bs = .ok rest) :
    rest.length < bs.length := by
  fun_induction skipFrom ks bs with
  | case1 => cases h
  | case2 ks bs r hs =>
    cases h
    exact length_skipOne hs
  | case3 ks bs l ls r hs _ ih =>
    have := ih h
    omega

def skip : Reader Unit where
  run bs := do return ((), ← skipFrom [] bs)
  consumes h := by
    obtain ⟨r, hs, h⟩ := bind_eq_ok.1 h
    cases h
    exact length_skipFrom hs

end EncryptedColumns.Json
