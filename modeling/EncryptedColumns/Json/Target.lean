import EncryptedColumns.Json.Parser
import EncryptedColumns.NameMap

/-!
# Typed targets

Readers for what a document promises: texts, bounded numbers, choices between
names and maps. A value of another shape is refused with what was met and what
was due.
-/

namespace EncryptedColumns.Json

/-- The fault of a value that is not of the shape that is due. A scalar is read to its
end first, and its own faults come before. -/
def unexpected (expected : String) (bs : Bytes) : Fault :=
  match lead bs with
  | .error e => e
  | .ok (.scalar s, b, rest) =>
    match s.read b rest with
    | .error e => e
    | .ok (j, _) => .invalidType (Found.ofJson j) expected
  | .ok (.array, _, _) => .invalidType .sequence expected
  | .ok (.object, _, _) => .invalidType .map expected

/-! ## Scalars -/

def text : Reader String where
  run bs :=
    match lead bs with
    | .ok (.scalar .string, _, rest) => content [] rest
    | _ => .error (unexpected "a string" bs)
  consumes h := by
    split at h
    · rename_i hl
      have := length_lead hl
      have := length_content h
      omega
    · cases h

def bounded (n : Number) : Except Fault UInt32 :=
  match n with
  | .whole n _ =>
    if 0 ≤ n ∧ n < 0x100000000 then .ok (UInt32.ofNat n.toNat) else .error (.invalidWhole n "u32")
  | .float x => .error (.invalidType (.float x) "u32")

def word32 : Reader UInt32 where
  run bs :=
    match lead bs with
    | .ok (.scalar .number, b, rest) => do
      let (n, rest) ← numeral .endInValue (b :: rest)
      return (← bounded (← n.value), rest)
    | _ => .error (unexpected "u32" bs)
  consumes h := by
    split at h
    · rename_i hl
      obtain ⟨⟨n, r⟩, hn, h⟩ := bind_eq_ok.1 h
      obtain ⟨v, _, h⟩ := bind_eq_ok.1 h
      obtain ⟨w, _, h⟩ := bind_eq_ok.1 h
      cases h
      have := length_lead hl
      have := length_numeral hn
      simp at this
      omega
    · cases h

def optional {α : Type} (r : Reader α) : Reader (Option α) where
  run bs :=
    match lead bs with
    | .ok (.scalar .null, _, rest) => do return (none, ← word ['u', 'l', 'l'] rest)
    | _ => (r.map some).run bs
  consumes h := by
    split at h
    · rename_i hl
      obtain ⟨r, hw, h⟩ := bind_eq_ok.1 h
      cases h
      have := length_lead hl
      have := length_word_le hw
      omega
    · exact (r.map some).consumes h

/-! ## Choices -/

private def choice {α : Type} (known : List (String × α)) (name : String) : Except Fault α :=
  match known.lookup name with
  | some a => .ok a
  | none => .error (.unknownVariant name (known.map (·.1)))

/-- The null that a name stands in front of, and the end of its object. -/
private def emptyPayload (bs : Bytes) : Except Fault Bytes :=
  match lead bs with
  | .ok (.scalar .null, _, rest) => do
    match skipBlanks (← word ['u', 'l', 'l'] rest) with
    | [] => throw .endInObject
    | b :: rest => if Char.ofUInt8 b = '}' then return rest else throw .expectedValue
  | _ => .error (unexpected "unit" bs)

private theorem length_emptyPayload {bs rest : Bytes} (h : emptyPayload bs = .ok rest) :
    rest.length < bs.length := by
  unfold emptyPayload at h
  split at h
  · rename_i hl
    obtain ⟨r, hw, h⟩ := bind_eq_ok.1 h
    have := length_lead hl
    have := length_word_le hw
    split at h
    · cases h
    · rename_i hb
      have := length_lt_of_skipBlanks hb
      split at h <;> cases h
      omega
  · cases h

/-- One of several names: a string, or an object that maps it to null. -/
def oneOf {α : Type} (known : List (String × α)) : Reader α where
  run bs :=
    match skipBlanks bs with
    | [] => .error .endInValue
    | b :: rest =>
      match Char.ofUInt8 b with
      | '"' => do
        let (name, rest) ← content [] rest
        return (← choice known name, rest)
      | '{' =>
        match skipBlanks rest with
        | [] => .error .endInObject
        | b :: rest =>
          match Char.ofUInt8 b with
          | '"' => do
            let (name, rest) ← content [] rest
            let a ← choice known name
            return (a, ← emptyPayload (← colon rest))
          | '}' => .error .expectedValue
          | _ => .error .keyNotString
      | _ => .error .expectedValue
  consumes h := by
    split at h
    · cases h
    · rename_i hb
      have := length_lt_of_skipBlanks hb
      split at h
      · obtain ⟨⟨name, r⟩, hc, h⟩ := bind_eq_ok.1 h
        obtain ⟨a, _, h⟩ := bind_eq_ok.1 h
        cases h
        exact Nat.lt_trans (length_content hc) this
      · split at h
        · cases h
        · rename_i hd
          have := length_lt_of_skipBlanks hd
          split at h
          · obtain ⟨⟨name, r⟩, hc, h⟩ := bind_eq_ok.1 h
            obtain ⟨a, _, h⟩ := bind_eq_ok.1 h
            obtain ⟨r₁, hk, h⟩ := bind_eq_ok.1 h
            obtain ⟨r₂, he, h⟩ := bind_eq_ok.1 h
            cases h
            have := length_content hc
            have := length_colon hk
            have := length_emptyPayload he
            omega
          · cases h
          · cases h
      · cases h

theorem run_oneOf {α : Type} {known : List (String × α)} {bs body rest : Bytes} {name : String} {a : α}
    (hb : skipBlanks bs = '"'.toUInt8 :: body) (hc : content [] body = .ok (name, rest))
    (hk : known.lookup name = some a) : (oneOf known).run bs = .ok (a, rest) := by
  have hq : Char.ofUInt8 '"'.toUInt8 = '"' := by decide
  simp only [oneOf, hb, hq, hc, choice, hk, bind, Except.bind]
  rfl

def fieldsOf {σ : Type} (step : FieldStep σ) (s : σ) : Reader σ where
  run bs :=
    match lead bs with
    | .ok (.object, _, rest) => members step s rest
    | _ => .error (unexpected "a map" bs)
  consumes h := by
    split at h
    · rename_i hl
      exact Nat.lt_trans (length_members h) (length_lead hl)
    · cases h

def document : Nat → Reader Object
  | 0 => ⟨fun bs => .error (match lead bs with
      | .ok (.object, _, _) => .tooDeep
      | _ => unexpected "a map" bs), fun h => by cases h⟩
  | n + 1 => fieldsOf (gather (value n)) []

def mapOf {α : Type} (item : Reader α) : Reader (NameMap α) :=
  fieldsOf (fun m name => .ok (item.map (m.insert name))) ∅

end EncryptedColumns.Json
