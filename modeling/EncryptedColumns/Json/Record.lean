import EncryptedColumns.Json.Skip
import EncryptedColumns.Json.Target

/-!
# Records

A record is written as an object with named fields, or as an array with the same
fields in order. Its fields are gathered in a draft, which is completed when the
record ends.
-/

namespace EncryptedColumns.Json

structure Field (σ : Type) where
  name : String
  isSet : σ → Bool
  read : Reader (σ → σ)

/-- A record: its fields in order, and how a draft is completed. Where the draft lacks a
field that the record needs, the fault is the given one for its place and name. -/
structure Layout (σ α : Type) where
  name : String
  fields : List (Field σ)
  complete : (Nat → String → Fault) → σ → Except Fault α

def due {α : Type} (fault : Fault) : Option α → Except Fault α
  | some a => .ok a
  | none => .error fault

namespace Layout

variable {σ α : Type}

/-- Fields may come in any order, each at most once; unknown ones are passed over. -/
def step (layout : Layout σ α) : FieldStep σ := fun s key =>
  match layout.fields.find? (·.name = key) with
  | none => .ok (skip.map fun _ => s)
  | some f => if f.isSet s then .error (.duplicateField key) else .ok (f.read.map (· s))

def endOfSlots (bs : Bytes) : Except Fault Bytes :=
  match skipBlanks bs with
  | [] => .error .endInList
  | b :: rest =>
    match Char.ofUInt8 b with
    | ']' => .ok rest
    | ',' =>
      match skipBlanks rest with
      | [] => .error .trailingCharacters
      | c :: _ =>
        if Char.ofUInt8 c = ']' then .error .trailingComma else .error .trailingCharacters
    | _ => .error .trailingCharacters

def nextSlot (first : Bool) (bs : Bytes) : Except Fault (Bool × Bytes) :=
  match skipBlanks bs with
  | [] => .error .endInList
  | b :: rest =>
    if Char.ofUInt8 b = ']' then .ok (false, rest)
    else if first then .ok (true, bs)
    else afterElement bs

/-- The fields as elements of an array, in order; the last ones may be left out. -/
def slots : List (Field σ) → Bool → σ → Bytes → Except Fault (σ × Bytes)
  | [], _, s, bs => do return (s, ← endOfSlots bs)
  | f :: fs, first, s, bs => do
    match ← nextSlot first bs with
    | (false, rest) => return (s, rest)
    | (true, rest) =>
      let (update, rest) ← f.read.run rest
      slots fs false (update s) rest

theorem length_endOfSlots {bs rest : Bytes} (h : endOfSlots bs = .ok rest) :
    rest.length < bs.length := by
  unfold endOfSlots at h
  split at h
  · cases h
  · rename_i hb
    split at h
    · cases h; exact length_lt_of_skipBlanks hb
    · split at h
      · cases h
      · split at h <;> cases h
    · cases h

theorem length_nextSlot_le {first more : Bool} {bs rest : Bytes}
    (h : nextSlot first bs = .ok (more, rest)) : rest.length ≤ bs.length := by
  unfold nextSlot at h
  split at h
  · cases h
  · rename_i hb
    have := length_lt_of_skipBlanks hb
    split at h
    · cases h; omega
    · split at h
      · cases h; simp
      · exact Nat.le_of_lt (length_afterElement h)

theorem length_slots_le {fs : List (Field σ)} {first : Bool} {s t : σ} {bs rest : Bytes}
    (h : slots fs first s bs = .ok (t, rest)) : rest.length ≤ bs.length := by
  induction fs generalizing first s bs with
  | nil =>
    obtain ⟨r, he, h⟩ := bind_eq_ok.1 h
    cases h
    exact Nat.le_of_lt (length_endOfSlots he)
  | cons f fs ih =>
    obtain ⟨⟨more, r⟩, hn, h⟩ := bind_eq_ok.1 h
    have := length_nextSlot_le hn
    cases more with
    | false => cases h; exact this
    | true =>
      obtain ⟨⟨u, r'⟩, hr, h⟩ := bind_eq_ok.1 h
      have := f.read.consumes hr
      have := ih h
      omega

def reader (layout : Layout σ α) (blank : σ) : Reader α where
  run bs :=
    match lead bs with
    | .ok (.object, _, rest) => do
      let (s, rest) ← members layout.step blank rest
      return (← layout.complete (fun _ name => .missingField name) s, rest)
    | .ok (.array, _, rest) => do
      let (s, rest) ← slots layout.fields true blank rest
      return (← layout.complete
        (fun place _ => .invalidLength place layout.name layout.fields.length) s, rest)
    | _ => .error (unexpected ("struct " ++ layout.name) bs)
  consumes h := by
    split at h
    · rename_i hl
      obtain ⟨⟨s, r⟩, hm, h⟩ := bind_eq_ok.1 h
      obtain ⟨a, _, h⟩ := bind_eq_ok.1 h
      cases h
      exact Nat.lt_trans (length_members hm) (length_lead hl)
    · rename_i hl
      obtain ⟨⟨s, r⟩, hm, h⟩ := bind_eq_ok.1 h
      obtain ⟨a, _, h⟩ := bind_eq_ok.1 h
      cases h
      exact Nat.lt_of_le_of_lt (length_slots_le hm) (length_lead hl)
    · cases h

end Layout

end EncryptedColumns.Json
