import EncryptedColumns.Json.StringLiteral

/-!
# What stands between brackets

The elements of an array and the fields of an object, read one after the other
from behind the opening bracket to the closing one. How an element or the value
of a field is read is a parameter.
-/

namespace EncryptedColumns.Json

/-! ## Arrays -/

def afterElement (bs : Bytes) : Except Fault (Bool × Bytes) :=
  match skipBlanks bs with
  | [] => .error .endInList
  | b :: rest =>
    match Char.ofUInt8 b with
    | ']' => .ok (false, rest)
    | ',' =>
      match skipBlanks rest with
      | [] => .error .endInValue
      | c :: _ => if Char.ofUInt8 c = ']' then .error .trailingComma else .ok (true, rest)
    | _ => .error .expectedListCommaOrEnd

theorem length_afterElement {bs rest : Bytes} {more : Bool}
    (h : afterElement bs = .ok (more, rest)) : rest.length < bs.length := by
  unfold afterElement at h
  split at h
  · cases h
  · rename_i hb
    have := length_lt_of_skipBlanks hb
    split at h
    · cases h; assumption
    · split at h
      · cases h
      · split at h <;> cases h
        assumption
    · cases h

def elementsFrom {α : Type} (item : Reader α) (bs : Bytes) : Except Fault (List α × Bytes) :=
  match hi : item.run bs with
  | .error e => .error e
  | .ok (a, rest) =>
    match ha : afterElement rest with
    | .error e => .error e
    | .ok (false, rest) => .ok ([a], rest)
    | .ok (true, left) =>
      have := item.consumes hi
      have := length_afterElement ha
      (elementsFrom item left).map fun (as, rest) => (a :: as, rest)
termination_by bs.length

theorem elementsFrom_eq {α : Type} (item : Reader α) (bs : Bytes) : elementsFrom item bs = do
    let (a, rest) ← item.run bs
    let (more, left) ← afterElement rest
    if more then (elementsFrom item left).map fun (as, rest) => (a :: as, rest)
    else return ([a], left) := by
  rw [elementsFrom]
  split
  · rename_i hi
    rw [hi]
    rfl
  · rename_i hi
    split <;> rename_i ha <;> simp only [hi, ha, bind, Except.bind] <;> rfl

theorem elementsFrom_cases {α : Type} {item : Reader α} {bs rest : Bytes} {as : List α}
    (h : elementsFrom item bs = .ok (as, rest)) :
    ∃ a r, item.run bs = .ok (a, r) ∧ (afterElement r = .ok (false, rest) ∨
      ∃ left as', afterElement r = .ok (true, left) ∧ elementsFrom item left = .ok (as', rest)) := by
  rw [elementsFrom_eq] at h
  obtain ⟨⟨a, r⟩, hi, h⟩ := bind_eq_ok.1 h
  obtain ⟨⟨more, left⟩, ha, h⟩ := bind_eq_ok.1 h
  refine ⟨a, r, hi, ?_⟩
  cases more with
  | false => cases h; exact .inl ha
  | true =>
    obtain ⟨p, hl, h⟩ := map_eq_ok.1 h
    cases h
    exact .inr ⟨left, _, ha, hl⟩

def elements {α : Type} (item : Reader α) (bs : Bytes) : Except Fault (List α × Bytes) :=
  match skipBlanks bs with
  | [] => .error .endInList
  | b :: rest => if Char.ofUInt8 b = ']' then .ok ([], rest) else elementsFrom item bs

theorem length_elementsFrom {α : Type} {item : Reader α} {bs rest : Bytes} {as : List α}
    (h : elementsFrom item bs = .ok (as, rest)) : rest.length < bs.length := by
  fun_induction elementsFrom item bs generalizing as with
  | case1 => cases h
  | case2 => cases h
  | case3 bs a r hi r' ha =>
    cases h
    have := item.consumes hi
    have := length_afterElement ha
    omega
  | case4 bs a r hi left ha h₁ h₂ ih =>
    obtain ⟨p, hr, h⟩ := map_eq_ok.1 h
    cases h
    have := ih hr
    omega

theorem length_elements {α : Type} {item : Reader α} {bs rest : Bytes} {as : List α}
    (h : elements item bs = .ok (as, rest)) : rest.length < bs.length := by
  unfold elements at h
  split at h
  · cases h
  · rename_i hb
    split at h
    · cases h; exact length_lt_of_skipBlanks hb
    · exact length_elementsFrom h

/-! ## Objects -/

def colon (bs : Bytes) : Except Fault Bytes :=
  match skipBlanks bs with
  | [] => .error .endInObject
  | b :: rest => if Char.ofUInt8 b = ':' then .ok rest else .error .expectedColon

theorem length_colon {bs rest : Bytes} (h : colon bs = .ok rest) : rest.length < bs.length := by
  unfold colon at h
  split at h
  · cases h
  · rename_i hb
    split at h <;> cases h
    exact length_lt_of_skipBlanks hb

def afterField (bs : Bytes) : Except Fault (Bool × Bytes) :=
  match skipBlanks bs with
  | [] => .error .endInObject
  | b :: rest =>
    match Char.ofUInt8 b with
    | '}' => .ok (false, rest)
    | ',' =>
      match skipBlanks rest with
      | [] => .error .endInValue
      | c :: rest =>
        match Char.ofUInt8 c with
        | '"' => .ok (true, rest)
        | '}' => .error .trailingComma
        | _ => .error .keyNotString
    | _ => .error .expectedObjectCommaOrEnd

theorem length_afterField {bs rest : Bytes} {more : Bool}
    (h : afterField bs = .ok (more, rest)) : rest.length < bs.length := by
  unfold afterField at h
  split at h
  · cases h
  · rename_i hb
    have := length_lt_of_skipBlanks hb
    split at h
    · cases h; assumption
    · split at h
      · cases h
      · rename_i hc
        have := length_lt_of_skipBlanks hc
        split at h <;> cases h
        omega
    · cases h

/-- How the fields of an object are taken in: a key turns what has been gathered into the
reader of the field's value, or is refused. -/
abbrev FieldStep (σ : Type) := σ → String → Except Fault (Reader σ)

def field {σ : Type} (step : FieldStep σ) (s : σ) (bs : Bytes) : Except Fault (σ × Bytes) := do
  let (key, rest) ← content [] bs
  let value ← step s key
  value.run (← colon rest)

theorem length_field {σ : Type} {step : FieldStep σ} {s t : σ} {bs rest : Bytes}
    (h : field step s bs = .ok (t, rest)) : rest.length < bs.length := by
  obtain ⟨⟨key, r⟩, hk, h⟩ := bind_eq_ok.1 h
  obtain ⟨value, _, h⟩ := bind_eq_ok.1 h
  obtain ⟨r', hc, h⟩ := bind_eq_ok.1 h
  have := length_content hk
  have := length_colon hc
  have := value.consumes h
  omega

def membersFrom {σ : Type} (step : FieldStep σ) (s : σ) (bs : Bytes) : Except Fault (σ × Bytes) :=
  match hf : field step s bs with
  | .error e => .error e
  | .ok (s, rest) =>
    match ha : afterField rest with
    | .error e => .error e
    | .ok (false, rest) => .ok (s, rest)
    | .ok (true, left) =>
      have := length_field hf
      have := length_afterField ha
      membersFrom step s left
termination_by bs.length

theorem membersFrom_eq {σ : Type} (step : FieldStep σ) (s : σ) (bs : Bytes) :
    membersFrom step s bs = do
      let (t, rest) ← field step s bs
      let (more, left) ← afterField rest
      if more then membersFrom step t left else return (t, left) := by
  rw [membersFrom]
  split
  · rename_i hf
    rw [hf]
    rfl
  · rename_i hf
    split <;> rename_i ha <;> simp only [hf, ha, bind, Except.bind] <;> rfl

theorem membersFrom_cases {σ : Type} {step : FieldStep σ} {s t : σ} {bs rest : Bytes}
    (h : membersFrom step s bs = .ok (t, rest)) :
    ∃ u r, field step s bs = .ok (u, r) ∧ (afterField r = .ok (false, rest) ∧ u = t ∨
      ∃ left, afterField r = .ok (true, left) ∧ membersFrom step u left = .ok (t, rest)) := by
  rw [membersFrom_eq] at h
  obtain ⟨⟨u, r⟩, hf, h⟩ := bind_eq_ok.1 h
  obtain ⟨⟨more, left⟩, ha, h⟩ := bind_eq_ok.1 h
  refine ⟨u, r, hf, ?_⟩
  cases more with
  | false => cases h; exact .inl ⟨ha, rfl⟩
  | true => exact .inr ⟨left, ha, h⟩

def members {σ : Type} (step : FieldStep σ) (s : σ) (bs : Bytes) : Except Fault (σ × Bytes) :=
  match skipBlanks bs with
  | [] => .error .endInObject
  | b :: rest =>
    match Char.ofUInt8 b with
    | '}' => .ok (s, rest)
    | '"' => membersFrom step s rest
    | _ => .error .keyNotString

theorem length_membersFrom {σ : Type} {step : FieldStep σ} {s t : σ} {bs rest : Bytes}
    (h : membersFrom step s bs = .ok (t, rest)) : rest.length < bs.length := by
  fun_induction membersFrom step s bs with
  | case1 => cases h
  | case2 => cases h
  | case3 s bs s' r hf r' ha =>
    cases h
    have := length_field hf
    have := length_afterField ha
    omega
  | case4 s bs s' r hf left ha h₁ h₂ ih =>
    have := ih h
    omega

theorem length_members {σ : Type} {step : FieldStep σ} {s t : σ} {bs rest : Bytes}
    (h : members step s bs = .ok (t, rest)) : rest.length < bs.length := by
  unfold members at h
  split at h
  · cases h
  · rename_i hb
    have := length_lt_of_skipBlanks hb
    split at h
    · cases h; assumption
    · have := length_membersFrom h
      omega
    · cases h

end EncryptedColumns.Json
