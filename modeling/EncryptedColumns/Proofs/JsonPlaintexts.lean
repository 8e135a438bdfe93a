import EncryptedColumns.Proofs.Rows

/-!
# Plaintexts that come as JSON

A JSON value is encoded exactly if it is of one of the four kinds. Then the value tells which
kind its envelope is to be decoded as, and what is decoded is the value again.
-/

namespace EncryptedColumns

namespace Json

/-- A value that stands for a plaintext of the kind. A whole number must be within 64 signed bits. -/
inductive HasKind : Json → Kind → Prop
  | text (s : String) : HasKind (.string s) .text
  | integer {n : Int} (range : -0x8000000000000000 ≤ n ∧ n < 0x10000000000000000) :
    Int64.minValue.toInt ≤ n → n ≤ Int64.maxValue.toInt → HasKind (.number (.whole n range)) .integer
  | boolean (b : Bool) : HasKind (.bool b) .boolean
  | document (o : Object) : HasKind (.object o) .document

inductive HasNoKind : Json → NotPlaintext → Prop
  | null : HasNoKind .null .null
  | array (items : List Json) : HasNoKind (.array items) .array
  | float (x : Double) : HasNoKind (.number (.float x)) (.number (.float x))
  | whole {n : Int} (range : -0x8000000000000000 ≤ n ∧ n < 0x10000000000000000) :
    Int64.maxValue.toInt < n → HasNoKind (.number (.whole n range)) (.number (.whole n range))

end Json

namespace PlainValue

theorem ofJson_toJson (v : PlainValue) : ofJson v.toJson = .ok v := by
  cases v with
  | text | boolean | document => rfl
  | integer n =>
    rw [toJson, ofJson, Int64.ofInt_toInt]
    exact if_pos n.toInt_lt

theorem hasKind_toJson (v : PlainValue) : v.toJson.HasKind v.kind := by
  cases v with
  | text s => exact .text s
  | integer n => exact .integer _ n.minValue_le_toInt n.toInt_le
  | boolean b => exact .boolean b
  | document o => exact .document o

theorem hasKind_iff {j : Json} {k : Kind} : j.HasKind k ↔ ∃ v, ofJson j = .ok v ∧ v.kind = k := by
  constructor
  · intro h
    cases h with
    | text | boolean | document => exact ⟨_, rfl, rfl⟩
    | integer range _ hn => exact ⟨_, if_pos (Int.lt_add_one_of_le hn), rfl⟩
  · rintro ⟨v, hv, rfl⟩
    rw [← toJson_of_ofJson hv]
    exact hasKind_toJson v

theorem ofJson_eq_error_iff {j : Json} {e : Refusal} :
    ofJson j = .error e ↔ ∃ what, j.HasNoKind what ∧ e = .unsupportedType what := by
  constructor
  · intro h
    cases j with
    | string | bool | object => cases h
    | null =>
      cases h
      exact ⟨_, .null, rfl⟩
    | array items =>
      cases h
      exact ⟨_, .array items, rfl⟩
    | number n =>
      cases n with
      | float x =>
        cases h
        exact ⟨_, .float x, rfl⟩
      | whole n range =>
        rw [ofJson] at h
        split at h
        · cases h
        · rename_i hn
          cases h
          exact ⟨_, .whole range (Int.lt_of_add_one_le (Int.not_lt.1 hn)), rfl⟩
  · rintro ⟨what, hwhat, rfl⟩
    cases hwhat with
    | null | array | float => rfl
    | whole range hn => exact if_neg (Int.not_lt.2 hn)

theorem isRestorable_of_toJson {v : PlainValue}
    (h : ∀ o, v.toJson = .object o → Object.IsRestorable o) : v.IsRestorable := by
  cases v with
  | document o => exact h o rfl
  | text | integer | boolean => trivial

end PlainValue

namespace Payload

/-- **JSON values that are plaintexts come back as they were.** A value is encoded exactly if it has one
of the four kinds, and any other is refused with its type. What is encoded decodes, as the kind that
the value has, to the value. As a JSON value every plaintext is taken for itself. -/
theorem decodeAs_encodeJson :
    (∀ (j : Json) (table column : String),
      ((∃ text, encodeJson j table column = .ok text) ↔ ∃ k, j.HasKind k) ∧
      (∀ e, encodeJson j table column = .error e ↔
        ∃ what, j.HasNoKind what ∧ e = .unsupportedType what) ∧
      ∀ text, encodeJson j table column = .ok text →
        (∀ o, j = .object o → Object.IsRestorable o) →
          ∃ v, PlainValue.ofJson j = .ok v ∧
            decodeAs (Bytes.ofString text) v.kind = .ok v ∧ v.toJson = j) ∧
    ∀ v : PlainValue, PlainValue.ofJson v.toJson = .ok v := by
  refine ⟨fun j table column => ⟨⟨?_, ?_⟩, fun e => ?_, fun text h hr => ?_⟩, PlainValue.ofJson_toJson⟩
  · rintro ⟨text, h⟩
    obtain ⟨v, hv, _⟩ := encodeJson_eq_ok_iff.1 h
    exact ⟨v.kind, PlainValue.hasKind_iff.2 ⟨v, hv, rfl⟩⟩
  · rintro ⟨k, hk⟩
    obtain ⟨v, hv, _⟩ := PlainValue.hasKind_iff.1 hk
    exact ⟨_, encodeJson_eq_ok_iff.2 ⟨v, hv, rfl⟩⟩
  · rw [encodeJson_eq_error_iff]
    exact PlainValue.ofJson_eq_error_iff
  · obtain ⟨v, hv, rfl⟩ := encodeJson_eq_ok_iff.1 h
    obtain rfl := PlainValue.toJson_of_ofJson hv
    exact ⟨v, hv, decodeAs_wrap (PlainValue.isRestorable_of_toJson hr) table column, rfl⟩

def mixed : Object :=
  [("b\n", .array [.number (.whole 0xFFFFFFFFFFFFFFFF (by decide)), .number (.float ⟨0.1, by decide⟩)]),
    ("a", .null)]

theorem decodeAs_encodeJson_mixed :
    (∃ text, encodeJson (.object mixed) "t" "c" = .ok text ∧
      decodeAs (Bytes.ofString text) .document = .ok (.document mixed)) ∧
    (∃ text, encodeJson (.number (.whole 0x7FFFFFFFFFFFFFFF (by decide))) "t" "c" = .ok text) ∧
    encodeJson (.number (.whole 0x8000000000000000 (by decide))) "t" "c" =
      .error (.unsupportedType (.number (.whole 0x8000000000000000 (by decide)))) ∧
    encodeJson (.number (.float ⟨-0.0, by decide⟩)) "t" "c" =
      .error (.unsupportedType (.number (.float ⟨-0.0, by decide⟩))) := by
  obtain ⟨hencode, _⟩ := decodeAs_encodeJson
  have hmixed : Object.IsRestorable mixed := by
    refine ⟨by decide, ?_, ?_⟩
    · exact ⟨by decide, ⟨trivial, trivial, trivial, trivial⟩, trivial, trivial⟩
    · exact ⟨trivial, ⟨trivial, trivial, by show Double.IsReadBack _; decide +kernel, trivial⟩,
        trivial, trivial⟩
  obtain ⟨text, htext⟩ := (hencode (.object mixed) "t" "c").1.2 ⟨_, .document mixed⟩
  refine ⟨⟨text, htext, ?_⟩, ?_, ?_, ?_⟩
  · obtain ⟨v, hv, hdecode, _⟩ := (hencode (.object mixed) "t" "c").2.2 text htext fun o ho => by
      cases ho
      exact hmixed
    cases hv
    exact hdecode
  · exact (hencode _ _ _).1.2 ⟨_, .integer _ (by decide) (by decide)⟩
  · exact ((hencode _ _ _).2.1 _).2 ⟨_, .whole _ (by decide), rfl⟩
  · exact ((hencode _ _ _).2.1 _).2 ⟨_, .float _, rfl⟩

end Payload

end EncryptedColumns
