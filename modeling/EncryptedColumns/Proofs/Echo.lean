import Mathlib.Logic.Relation
import EncryptedColumns.Proofs.Objects
import EncryptedColumns.Proofs.RoundTrip

/-!
# Payloads that come back changed

A proxy may add, overwrite, drop and reorder the fields of an envelope before it comes
back. As long as it leaves the plaintext alone, the payload decodes to what was encoded,
whatever stands around it.
-/

namespace EncryptedColumns

structure Json.IsRestorable (levels : Nat) (j : Json) : Prop where
  nesting : j.nesting ≤ levels
  keys : j.KeysDistinct
  floats : j.FloatsReadBack

namespace Object

theorem isRestorable_iff {o : Object} : o.IsRestorable ↔
    (o.map (·.1)).Nodup ∧ ∀ f ∈ o, f.2.IsRestorable (Json.nestingLimit - 1) := by
  constructor
  · intro h
    have hn := Json.nestingOfFields_le_iff.1 (Nat.le_of_succ_le_succ h.nesting)
    have hk := Json.everyField_iff.1 h.keys.2
    have hf := Json.everyField_iff.1 h.floats.2
    exact ⟨h.keys.1, fun f hm => ⟨hn f hm, hk f hm, hf f hm⟩⟩
  · intro h
    obtain ⟨hd, h⟩ := h
    refine ⟨Nat.succ_le_succ (Json.nestingOfFields_le_iff.2 fun f hm => (h f hm).nesting), ?_, ?_⟩
    · exact ⟨hd, Json.everyField_iff.2 fun f hm => (h f hm).keys⟩
    · exact ⟨trivial, Json.everyField_iff.2 fun f hm => (h f hm).floats⟩

def erase (key : String) (o : Object) : Object :=
  o.filter (·.1 ≠ key)

/-! ## Edits -/

/-- A change to an object that does not touch the field `kept`. -/
inductive Edit (kept : String) : Object → Object → Prop
  | insert (o : Object) {key : String} {v : Json} : key ≠ kept →
    v.IsRestorable (Json.nestingLimit - 1) → Edit kept o (o.insert key v)
  | erase (o : Object) {key : String} : key ≠ kept → Edit kept o (o.erase key)
  | reorder {o o' : Object} : o.Perm o' → Edit kept o o'

section
variable {kept : String} {o o' : Object}

theorem Edit.isRestorable (h : Edit kept o o') (ho : o.IsRestorable) : o'.IsRestorable := by
  obtain ⟨hd, hf⟩ := isRestorable_iff.1 ho
  rw [isRestorable_iff]
  cases h with
  | insert _ hv =>
    refine ⟨nodup_insert hd _ _, fun f hm => ?_⟩
    rcases mem_insert hm with rfl | hm
    · exact hv
    · exact hf f hm
  | erase =>
    refine ⟨hd.sublist (List.filter_sublist.map _), fun f hm => hf f (List.mem_filter.1 hm).1⟩
  | reorder hp => exact ⟨(hp.map _).nodup_iff.1 hd, fun f hm => hf f (hp.mem_iff.2 hm)⟩

theorem Edit.mem (h : Edit kept o o') {v : Json} (hm : (kept, v) ∈ o) : (kept, v) ∈ o' := by
  cases h with
  | insert hne => exact mem_insert_of_ne hm (Ne.symm hne) _
  | erase hne => exact List.mem_filter.2 ⟨hm, decide_eq_true (Ne.symm hne)⟩
  | reorder hp => exact hp.mem_iff.1 hm

def Edited (kept : String) : Object → Object → Prop :=
  Relation.ReflTransGen (Edit kept)

theorem Edited.keeps (h : Edited kept o o') (ho : o.IsRestorable) {v : Json} (hm : (kept, v) ∈ o) :
    o'.IsRestorable ∧ (kept, v) ∈ o' := by
  induction h with
  | refl => exact ⟨ho, hm⟩
  | tail _ step ih => exact ⟨step.isRestorable ih.1, step.mem ih.2⟩

end

end Object

/-! ## Decoding -/

theorem Envelope.mem_fields (e : Envelope) : ("p", .string e.plaintext) ∈ e.fields :=
  List.mem_cons_of_mem _ (List.mem_cons_self ..)

namespace Payload

theorem plaintext_compact {o : Object} (h : o.IsRestorable) {p : String} (hp : ("p", .string p) ∈ o) :
    plaintext (Bytes.ofString (Json.object o).compact) = .ok p := by
  rw [plaintext_object h, Object.find?_of_mem (Object.isRestorable_iff.1 h).1 hp]

/-- **Decoding survives an echo.** The envelope of a value is an object with four fields. However the
others are edited, what is written of the object decodes to the value. -/
theorem decode_edited {k : Kind} {v : k.Carrier} (h : (PlainValue.ofKind k v).IsRestorable)
    (table column : String) :
    ∃ text p w, encode v table column = .ok text ∧ render v = .ok p ∧
      Json.parse (Bytes.ofString text) = .ok (.object w) ∧
      w = [("k", .string "pt"), ("p", .string p),
        ("i", .object [("t", .string table), ("c", .string column)]),
        ("v", .number (.whole 1 (by decide)))] ∧
      ∀ w', Object.Edited "p" w w' →
        decode k.Carrier (Bytes.ofString (Json.object w').compact) = .ok v := by
  let e := Envelope.wrap (k.write v) table column
  refine ⟨e.write, k.write v, _, rfl, rfl, e.parse_write, rfl, fun w' hw => ?_⟩
  obtain ⟨hr, hp⟩ := hw.keeps e.isRestorable_fields e.mem_fields
  rw [decode, plaintext_compact hr hp]
  exact Kind.read_write h

/-- What an echo may look like: a ciphertext that could be taken for a plaintext, another version, no
tag, and the fields in reverse. -/
def echo : Object :=
  [("c", .string "\"p\":\"8\""), ("v", .array [.null]),
    ("i", .object [("t", .string "t"), ("c", .string "c")]), ("p", .string "-7")]

theorem decode_edited_echo :
    Object.Edited "p" (Envelope.wrap "-7" "t" "c").fields echo ∧
      decode Kind.integer.Carrier (Bytes.ofString (Json.object echo).compact) = .ok (-7 : Int64) := by
  have hc : (Json.string "\"p\":\"8\"").IsRestorable (Json.nestingLimit - 1) :=
    ⟨by decide, trivial, trivial⟩
  have hv : (Json.array [.null]).IsRestorable (Json.nestingLimit - 1) :=
    ⟨by decide, ⟨trivial, trivial, trivial⟩, ⟨trivial, trivial, trivial⟩⟩
  have hedits : Object.Edited "p" (Envelope.wrap "-7" "t" "c").fields echo :=
    (((Relation.ReflTransGen.refl.tail (.insert _ (show "c" ≠ "p" by decide) hc)).tail
      (.insert _ (show "v" ≠ "p" by decide) hv)).tail (.erase _ (show "k" ≠ "p" by decide))).tail
      (.reorder (List.reverse_perm echo))
  obtain ⟨text, p, w, _, hp, _, rfl, hdecode⟩ :=
    decode_edited (k := .integer) (v := (-7 : Int64)) trivial "t" "c"
  cases hp
  exact ⟨hedits, hdecode echo hedits⟩

end Payload

end EncryptedColumns
