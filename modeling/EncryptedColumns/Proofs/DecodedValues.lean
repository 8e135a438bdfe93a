import EncryptedColumns.Proofs.Operands
import EncryptedColumns.Proofs.ReaderResults

/-!
# Decoded values can be written again

The reader of documents lets nothing through that nests too deep or has a key twice, so a
value that has been decoded meets all that is asked of a value to be encoded and come back.
How the payload spelled it does not matter; only its floats have to be read back themselves.
-/

namespace EncryptedColumns

def PlainValue.FloatsReadBack : PlainValue → Prop
  | .document o => (Json.object o).FloatsReadBack
  | _ => True

theorem Kind.isReadable_of_read {p : String} {o : Object} (h : Kind.document.read p = .ok o) :
    (Json.object o).IsReadable Json.nestingLimit := by
  rw [Kind.read] at h
  split at h
  · rename_i o' hread
    cases h
    exact (Json.ensures_document Json.nestingLimit).of_readAll hread
  · cases h

namespace PlainValue

section
variable {k : Kind} {p : String}

theorem isReadable_of_parse {o : Object} (h : parse k p = .ok (.document o)) :
    (Json.object o).IsReadable Json.nestingLimit := by
  have hk : k = .document := (kind_of_parse h).symm
  subst hk
  rw [parse] at h
  cases hread : Kind.document.read p with
  | error e => rw [hread] at h; cases h
  | ok o' =>
    rw [hread] at h
    cases h
    exact Kind.isReadable_of_read hread

theorem isRestorable_of_parse {v : PlainValue} (h : parse k p = .ok v) (hf : v.FloatsReadBack) :
    v.IsRestorable := by
  cases v with
  | text s => trivial
  | integer n => trivial
  | boolean b => trivial
  | document o =>
    have hread := isReadable_of_parse h
    exact ⟨hread.nesting, hread.keys, hf⟩

end

end PlainValue

namespace Payload

/-- **What is decoded can be written and read again.** A document that comes out of a payload nests
within the limit and has distinct keys, whatever the payload holds. Any decoded value whose floats
are read back is encoded for every column, and its envelope decodes to the same value. -/
theorem decodeAs_encode_of_decodeAs {data : Bytes} {k : Kind} {v : PlainValue}
    (h : decodeAs data k = .ok v) :
    (∀ o, v = .document o →
      (Json.object o).nesting ≤ Json.nestingLimit ∧ (Json.object o).KeysDistinct) ∧
    (v.FloatsReadBack → ∀ table column, ∃ text, encode v table column = .ok text ∧
      decodeAs (Bytes.ofString text) k = .ok v) := by
  obtain ⟨p, _, hp⟩ := bind_eq_ok.1 h
  constructor
  · intro o ho
    subst ho
    have hread := PlainValue.isReadable_of_parse hp
    exact ⟨hread.nesting, hread.keys⟩
  · intro hf table column
    refine ⟨_, rfl, ?_⟩
    have hagain := decodeAs_wrap (PlainValue.isRestorable_of_parse hp hf) table column
    rwa [kind_of_decodeAs h] at hagain

/-- Blanks, a key that is escaped once and so comes twice, and a float. -/
def loosePayload : String :=
  "\x7b \"p\" : \"\x7b\\\"a\\\" : 1, \\\"b\\\":[0.50 ], \\\"\\\\u0061\\\" : 2\x7d\" \x7d"

def looseDocument : Object :=
  [("a", .number (.whole 2 (by decide))), ("b", .array [.number (.float ⟨0.5, by decide⟩)])]

theorem decodeAs_encode_of_decodeAs_loose :
    decodeAs (Bytes.ofString loosePayload) .document = .ok (.document looseDocument) ∧
    ∃ text, encode (PlainValue.document looseDocument) "t" "c" = .ok text ∧
      decodeAs (Bytes.ofString text) .document = .ok (.document looseDocument) := by
  have h : decodeAs (Bytes.ofString loosePayload) .document = .ok (.document looseDocument) := by
    decide +kernel
  have hf : (PlainValue.document looseDocument).FloatsReadBack := by
    refine ⟨trivial, trivial, ⟨trivial, ?_, trivial⟩, trivial⟩
    show Double.IsReadBack _
    decide +kernel
  exact ⟨h, (decodeAs_encode_of_decodeAs h).2 hf "t" "c"⟩

end Payload

end EncryptedColumns
