import EncryptedColumns.Payload
import EncryptedColumns.Proofs.IntegerText
import EncryptedColumns.Proofs.ValueText

/-!
# Plaintexts are read back

Three writers stand in one another: a document is written as JSON, any plaintext as
a string, and the string as a field of an envelope. Each of them is undone by its
reader, so decoding undoes encoding.
-/

namespace EncryptedColumns

/-- A document that can come back as it was. Its nesting counts the document itself. -/
structure Object.IsRestorable (o : Object) : Prop where
  nesting : (Json.object o).nesting ≤ Json.nestingLimit
  keys : (Json.object o).KeysDistinct
  floats : (Json.object o).FloatsReadBack

def PlainValue.IsRestorable : PlainValue → Prop
  | .document o => o.IsRestorable
  | _ => True

theorem Kind.read_write : ∀ {k : Kind} {v : k.Carrier}, (PlainValue.ofKind k v).IsRestorable →
    k.read (k.write v) = .ok v
  | .text, _, _ => rfl
  | .integer, n, _ => by
    rw [Kind.read, Kind.write, Integer.read_write]
  | .boolean, true, _ => rfl
  | .boolean, false, _ => rfl
  | .document, o, h => by
    rw [Kind.read, Kind.write, (Json.reads_document h.nesting h.keys h.floats).readAll]

namespace PlainValue

@[simp] theorem kind_ofKind (k : Kind) (v : k.Carrier) : (ofKind k v).kind = k := by
  cases k <;> rfl

@[simp] theorem write_ofKind (k : Kind) (v : k.Carrier) : (ofKind k v).write = k.write v := by
  cases k <;> rfl

theorem exists_ofKind (v : PlainValue) : ∃ a, ofKind v.kind a = v := by
  cases v with
  | text s => exact ⟨s, rfl⟩
  | integer n => exact ⟨n, rfl⟩
  | boolean b => exact ⟨b, rfl⟩
  | document o => exact ⟨o, rfl⟩

theorem parse_write {v : PlainValue} (h : v.IsRestorable) : parse v.kind v.write = .ok v := by
  obtain ⟨a, ha⟩ := v.exists_ofKind
  have hr : (ofKind v.kind a).IsRestorable := ha.symm ▸ h
  have hw : v.write = v.kind.write a := by rw [← write_ofKind, ha]
  rw [parse, hw, Kind.read_write hr]
  exact congrArg Except.ok ha

end PlainValue

/-! ## Envelopes -/

namespace Envelope

theorem isRestorable_fields (e : Envelope) : e.fields.IsRestorable := by
  refine ⟨?_, ?_, ?_⟩
  · show 2 ≤ Json.nestingLimit
    decide
  · refine ⟨by simp [fields], trivial, trivial, ⟨by simp, trivial, trivial, trivial⟩, trivial, trivial⟩
  · exact ⟨trivial, trivial, trivial, ⟨trivial, trivial, trivial, trivial⟩, trivial, trivial⟩

theorem parse_write (e : Envelope) : Json.parse (Bytes.ofString e.write) = .ok e.toJson :=
  Json.parse_compact e.isRestorable_fields.nesting e.isRestorable_fields.keys
    e.isRestorable_fields.floats

end Envelope

namespace Payload

theorem fields_compact {o : Object} (h : o.IsRestorable) :
    fields (Bytes.ofString (Json.object o).compact) = .ok o := by
  rw [fields, Json.parse_compact h.nesting h.keys h.floats]

theorem plaintext_of_fields {data : Bytes} {o : Object} (h : fields data = .ok o) :
    plaintext data =
      match o.find? "p" with
      | some (.string p) => .ok p
      | _ => .error .missingPlaintext := by
  rw [plaintext, h]
  rfl

theorem plaintext_object {o : Object} (h : o.IsRestorable) :
    plaintext (Bytes.ofString (Json.object o).compact) =
      match o.find? "p" with
      | some (.string p) => .ok p
      | _ => .error .missingPlaintext :=
  plaintext_of_fields (fields_compact h)

theorem plaintext_write (e : Envelope) : plaintext (Bytes.ofString e.write) = .ok e.plaintext := by
  rw [Envelope.write, Envelope.toJson, plaintext_object e.isRestorable_fields]
  rfl

theorem decodeAs_eq_map_read {data : Bytes} {p : String} (hp : plaintext data = .ok p) (k : Kind) :
    decodeAs data k = (k.read p).map (PlainValue.ofKind k) := by
  rw [decodeAs, hp]
  rfl

/-! ## Encoding and decoding -/

/-- **Decoding undoes encoding.** A plaintext of the four kinds is always encoded, and its envelope
decodes to the plaintext, whatever the names are. -/
theorem decode_encode (table column : String) :
    (∀ (k : Kind) (v : k.Carrier), (PlainValue.ofKind k v).IsRestorable →
      ∃ text, encode v table column = .ok text ∧ decode k.Carrier (Bytes.ofString text) = .ok v) ∧
    ∀ v : PlainValue, v.IsRestorable →
      ∃ text, encode v table column = .ok text ∧ decodeAs (Bytes.ofString text) v.kind = .ok v := by
  constructor
  · intro k v h
    refine ⟨_, rfl, ?_⟩
    rw [decode, plaintext_write]
    exact Kind.read_write h
  · intro v h
    refine ⟨_, rfl, ?_⟩
    rw [decodeAs, plaintext_write]
    exact PlainValue.parse_write h

theorem decode_encode_unsorted :
    Object.IsRestorable [("b\n", .array [.number (.whole 0xFFFFFFFFFFFFFFFF (by decide)),
      .number (.float ⟨0.1, by decide⟩)]), ("a", .object [])] ∧
    (∃ text, encode (α := Kind.document.Carrier) [("b\n", .array [
        .number (.whole 0xFFFFFFFFFFFFFFFF (by decide)), .number (.float ⟨0.1, by decide⟩)]),
        ("a", .object [])] "t\"" "" = .ok text ∧
      decode Kind.document.Carrier (Bytes.ofString text) = .ok [("b\n", .array [
        .number (.whole 0xFFFFFFFFFFFFFFFF (by decide)), .number (.float ⟨0.1, by decide⟩)]),
        ("a", .object [])]) ∧
    ∃ text, encode (PlainValue.integer Int64.minValue) "t\"" "" = .ok text ∧
      decodeAs (Bytes.ofString text) .integer = .ok (.integer Int64.minValue) := by
  have h : Object.IsRestorable [("b\n", .array [.number (.whole 0xFFFFFFFFFFFFFFFF (by decide)),
      .number (.float ⟨0.1, by decide⟩)]), ("a", .object [])] := by
    refine ⟨by decide, ?_, ?_⟩
    · exact ⟨by decide, ⟨trivial, trivial, trivial, trivial⟩, ⟨List.nodup_nil, trivial⟩, trivial⟩
    · exact ⟨trivial, ⟨trivial, trivial, by show Double.IsReadBack _; decide +kernel, trivial⟩,
        ⟨trivial, trivial⟩, trivial⟩
  exact ⟨h, (decode_encode _ _).1 .document _ h, (decode_encode _ _).2 _ trivial⟩

end Payload

end EncryptedColumns
