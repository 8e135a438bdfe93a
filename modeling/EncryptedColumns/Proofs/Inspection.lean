import EncryptedColumns.Proofs.EnvelopeReaders
import EncryptedColumns.Proofs.TypedColumns

/-!
# What a payload tells of itself

Four functions look into a payload: two at its bytes, for the tag and for the plaintext, and two
at the value that the bytes hold. All of them come down to the texts that an object has under its
keys, so they tell the same of every payload, however malformed it is.
-/

namespace EncryptedColumns

def Json.textAt? (j : Json) (key : String) : Option String :=
  (j.field? key).bind Json.string?

theorem Json.string?_eq_some_iff {j : Json} {s : String} : j.string? = some s ↔ j = .string s := by
  cases j <;> simp [string?]

theorem Json.textAt?_object_eq_some_iff {o : Object} {key s : String} :
    (Json.object o).textAt? key = some s ↔ o.find? key = some (.string s) := by
  rw [textAt?, field?, Option.bind_eq_some_iff]
  simp only [string?_eq_some_iff, exists_eq_right]

theorem Tag.ofName?_eq_some_iff {name : String} {t : Tag} : ofName? name = some t ↔ name = t.name := by
  rw [ofName?]
  cases t with
  | plaintext => split <;> simp_all [Tag.name]
  | ciphertext => split <;> simp_all [Tag.name]

namespace Payload

/-! ## Bytes -/

section
variable {data : Bytes}

theorem fields_cases {w : Json} (hw : Json.parse data = .ok w) :
    (∃ o, w = .object o ∧ fields data = .ok o) ∨
      fields data = .error (.malformedEnvelope .notAnObject) ∧ ∀ key, w.textAt? key = none := by
  unfold fields
  rw [hw]
  cases w with
  | object o => exact .inl ⟨o, rfl, rfl⟩
  | null | bool | number | string | array => exact .inr ⟨rfl, fun _ => rfl⟩

theorem exists_fault_of_fields {e : Refusal} (h : fields data = .error e) :
    ∃ fault, e = .malformedEnvelope fault := by
  unfold fields at h
  split at h
  · cases h
    exact ⟨_, rfl⟩
  · cases h
  · cases h
    exact ⟨_, rfl⟩

theorem tag_of_fields_error {e : Refusal} (h : fields data = .error e) : tag data = .error e := by
  rw [tag, h]
  rfl

theorem plaintext_of_fields_error {e : Refusal} (h : fields data = .error e) :
    plaintext data = .error e := by
  rw [plaintext, h]
  rfl

section
variable {o : Object} (h : fields data = .ok o)
include h

theorem tag_of_fields : tag data = .ok (((Json.object o).textAt? "k").bind Tag.ofName?) := by
  rw [tag, h, Json.textAt?, Option.bind_assoc]
  rfl

theorem eq_missing_of_plaintext_error {e : Refusal} (he : plaintext data = .error e) :
    e = .missingPlaintext := by
  rw [plaintext_of_fields h] at he
  split at he
  · cases he
  · exact (Except.error.inj he).symm

end

theorem tag_eq_error_iff {e : Refusal} :
    tag data = .error e ↔ plaintext data = .error e ∧ ∃ fault, e = .malformedEnvelope fault := by
  cases hf : fields data with
  | error e' =>
    rw [tag_of_fields_error hf, plaintext_of_fields_error hf]
    constructor
    · intro h
      cases h
      exact ⟨rfl, exists_fault_of_fields hf⟩
    · rintro ⟨h, _⟩
      cases h
      rfl
  | ok o =>
    rw [tag_of_fields hf]
    constructor
    · intro h
      cases h
    · rintro ⟨h, fault, rfl⟩
      cases eq_missing_of_plaintext_error hf h

section
variable {w : Json} (hw : Json.parse data = .ok w)
include hw

theorem tag_eq_some_iff {t : Tag} : tag data = .ok (some t) ↔ w.textAt? "k" = some t.name := by
  rcases fields_cases hw with ⟨o, rfl, ho⟩ | ⟨he, hnone⟩
  · rw [tag_of_fields ho, Except.ok.injEq, Option.bind_eq_some_iff]
    simp only [Tag.ofName?_eq_some_iff, exists_eq_right]
  · simp [tag_of_fields_error he, hnone]

theorem plaintext_eq_ok_iff {p : String} : plaintext data = .ok p ↔ w.textAt? "p" = some p := by
  rcases fields_cases hw with ⟨o, rfl, ho⟩ | ⟨he, hnone⟩
  · rw [Json.textAt?_object_eq_some_iff]
    constructor
    · intro hp
      obtain ⟨o', ho', hfind⟩ := fields_of_plaintext hp
      cases ho.symm.trans ho'
      exact hfind
    · intro hfind
      rw [plaintext_of_fields ho, hfind]
  · simp [plaintext_of_fields_error he, hnone]

end

end

theorem plaintextOf_eq_none_or (w : Json) : plaintextOf w = none ∨ ciphertextOf w = none := by
  cases hp : plaintextOf w with
  | none => exact .inl rfl
  | some p =>
    cases hc : ciphertextOf w with
    | none => exact .inr rfl
    | some c =>
      have htag := (plaintextOf_eq_some_iff.1 hp).1.symm.trans (ciphertextOf_eq_some_iff.1 hc).1
      exact absurd htag (by decide)

/-! ## What is written -/

/-- A text that was made to carry a plaintext, in any of the ways in which envelopes and operands
are made. -/
inductive Carries : String → String → Prop
  | encode {α : Type} [Rendered α] {value : α} {table column p text : String} :
    render value = .ok p → encode value table column = .ok text → Carries text p
  | encodeJson {value : Json} {v : PlainValue} {table column text : String} :
    PlainValue.ofJson value = .ok v → encodeJson value table column = .ok text → Carries text v.write
  | operand {α : Type} [Rendered α] {value : α} {table column p text : String} {mode : QueryMode} :
    render value = .ok p → operand value table column mode = .ok text → Carries text p
  | path (path table column : String) : Carries (pathOperand path table column) path
  | columnEncode {α : Type} [Rendered α] {c : EncryptedColumn α} {value : α} {p text : String} :
    render value = .ok p → c.encode value = .ok text → Carries text p
  | columnOperand {α : Type} [Rendered α] {c : EncryptedColumn α} {value : α} {p text : String}
    {mode : QueryMode} : render value = .ok p → c.operand value mode = .ok text → Carries text p
  | columnPath {α : Type} (c : EncryptedColumn α) (path : String) : Carries (c.pathOperand path) path
  | registryOperand {r : Registry} {table column text : String} {mode : QueryMode}
    {value : PlainValue} : r.operand table column mode value = .ok text → Carries text value.write
  | registryPath {r : Registry} {table column path text : String} :
    r.pathOperand table column path = .ok text → Carries text path

theorem eq_wrap_of_encode {α : Type} [Rendered α] {value : α} {table column p text : String}
    (hp : render value = .ok p) (h : encode value table column = .ok text) :
    text = (Envelope.wrap p table column).write := by
  rw [EncryptedColumns.encode, hp] at h
  exact (Except.ok.inj h).symm

theorem Carries.exists_wrap {text p : String} (h : Carries text p) :
    ∃ table column, text = (Envelope.wrap p table column).write := by
  cases h with
  | encode hp h => exact ⟨_, _, eq_wrap_of_encode hp h⟩
  | encodeJson hv h =>
    obtain ⟨v', hv', rfl⟩ := encodeJson_eq_ok_iff.1 h
    cases hv.symm.trans hv'
    exact ⟨_, _, rfl⟩
  | operand hp h => exact ⟨_, _, eq_wrap_of_encode hp h⟩
  | path => exact ⟨_, _, rfl⟩
  | columnEncode hp h => exact ⟨_, _, eq_wrap_of_encode hp h⟩
  | columnOperand hp h => exact ⟨_, _, eq_wrap_of_encode hp h⟩
  | columnPath => exact ⟨_, _, rfl⟩
  | registryOperand h => exact ⟨_, _, Registry.eq_wrap_of_operand h⟩
  | registryPath h => exact ⟨_, _, Registry.eq_wrap_of_pathOperand h⟩

/-- **One answer about every payload.** The bytes have no tag to read exactly if they are refused as
malformed when the plaintext is read, with the same words. In a value that they hold there is a
plaintext exactly if the bytes are tagged as one and have it, and a ciphertext only if they are tagged
as one, never both. Whatever is made to carry a plaintext is seen as such by all of them. -/
theorem inspections_agree :
    (∀ data : Bytes,
      (∀ e, tag data = .error e ↔ plaintext data = .error e ∧ ∃ fault, e = .malformedEnvelope fault) ∧
      ∀ w, Json.parse data = .ok w →
        (∀ p, plaintextOf w = some p ↔ tag data = .ok (some .plaintext) ∧ plaintext data = .ok p) ∧
        ∀ c, ciphertextOf w = some c → tag data = .ok (some .ciphertext)) ∧
    (∀ w, plaintextOf w = none ∨ ciphertextOf w = none) ∧
    ∀ text p, Carries text p → tag (Bytes.ofString text) = .ok (some .plaintext) ∧
      ∃ w, Json.parse (Bytes.ofString text) = .ok w ∧ plaintextOf w = some p ∧ ciphertextOf w = none := by
  refine ⟨fun data => ⟨fun e => tag_eq_error_iff, fun w hw => ⟨fun p => ?_, fun c hc => ?_⟩⟩,
    plaintextOf_eq_none_or, fun text p h => ?_⟩
  · rw [tag_eq_some_iff hw, plaintext_eq_ok_iff hw]
    exact plaintextOf_eq_some_iff
  · exact (tag_eq_some_iff hw).2 (ciphertextOf_eq_some_iff.1 hc).1
  · obtain ⟨table, column, rfl⟩ := h.exists_wrap
    have hw := (Envelope.wrap p table column).parse_write
    have hp : plaintextOf (Envelope.wrap p table column).toJson = some p :=
      plaintextOf_eq_some_iff.2 ⟨rfl, rfl⟩
    refine ⟨(tag_eq_some_iff hw).2 rfl, _, hw, hp, ?_⟩
    rcases plaintextOf_eq_none_or (Envelope.wrap p table column).toJson with hnone | hnone
    · rw [hp] at hnone
      cases hnone
    · exact hnone

/-- A tag that comes twice, the first time as that of a ciphertext. -/
def retagged : Bytes :=
  Bytes.ofString "\x7b\"k\":\"ct\",\"c\":\"x\",\"p\":\"7\",\"k\":\"pt\"\x7d"

def untexted : Bytes :=
  Bytes.ofString "\x7b\"k\":\"ct\",\"c\":\"x\",\"p\":7\x7d"

theorem inspections_agree_retagged :
    (∃ w, Json.parse retagged = .ok w ∧ plaintextOf w = some "7" ∧
      tag retagged = .ok (some .plaintext) ∧ plaintext retagged = .ok "7") ∧
    (∃ w, Json.parse untexted = .ok w ∧ ciphertextOf w = some "x" ∧
      tag untexted = .ok (some .ciphertext) ∧ plaintext untexted = .error .missingPlaintext) ∧
    tag (Bytes.ofString "[1]") = .error (.malformedEnvelope .notAnObject) ∧
    ∃ text, encode (PlainValue.integer 7) "t" "c" = .ok text ∧
      tag (Bytes.ofString text) = .ok (some .plaintext) := by
  obtain ⟨hdata, _, hcarries⟩ := inspections_agree
  have hpt : Json.parse retagged =
      .ok (.object [("k", .string "pt"), ("c", .string "x"), ("p", .string "7")]) := by
    decide +kernel
  have hct : Json.parse untexted = .ok (.object [("k", .string "ct"), ("c", .string "x"),
      ("p", .number (.whole 7 (by decide)))]) := by
    decide +kernel
  have hlist : plaintext (Bytes.ofString "[1]") = .error (.malformedEnvelope .notAnObject) := by
    decide +kernel
  obtain ⟨htag, hplaintext⟩ := (((hdata retagged).2 _ hpt).1 "7").1 rfl
  have hcarried : Carries (Envelope.wrap "7" "t" "c").write "7" :=
    @Carries.encode PlainValue _ (.integer 7) "t" "c" _ _ rfl rfl
  refine ⟨⟨_, hpt, rfl, htag, hplaintext⟩, ⟨_, hct, rfl, ?_, ?_⟩, ?_, _, rfl, ?_⟩
  · exact ((hdata untexted).2 _ hct).2 "x" rfl
  · decide +kernel
  · exact ((hdata _).1 _).2 ⟨hlist, _, rfl⟩
  · exact (hcarries _ _ hcarried).1

end Payload

end EncryptedColumns
