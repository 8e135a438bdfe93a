import EncryptedColumns.EncryptedColumn
import EncryptedColumns.Proofs.PrintableText
import EncryptedColumns.Proofs.RoundTrip

/-!
# Nullable columns

A null is stored as null. A value of any kind is stored as its envelope, an empty text, the
text `null` and the empty document included, so what is read back tells them apart. The
envelope holds no controls, which is all that a database is asked to keep as it is.
-/

namespace EncryptedColumns

/-- A database that gives back what was stored: null as null, and a text byte for byte, if its bytes
are UTF-8 and none lies below the blank. -/
structure Storage where
  fetch : Cell → Cell
  fetch_null : fetch .null = .null
  fetch_text : ∀ data, (Bytes.text? data).isSome = true → (∀ b ∈ data, 0x20 ≤ b.toNat) →
    fetch (.text data) = .text data

theorem Storage.fetch_ofParameter (db : Storage) {stored : Option String}
    (h : ∀ s ∈ stored, IsPrintable s) :
    db.fetch (Cell.ofParameter stored) = Cell.ofParameter stored := by
  cases stored with
  | none => exact db.fetch_null
  | some s =>
    apply db.fetch_text
    · rw [Bytes.text?_ofString]
      rfl
    · intro b hb
      exact (h s rfl).le_of_mem_ofString hb

namespace EncryptedColumn

variable {k : Kind} (c : EncryptedColumn k.Carrier)

def envelope (v : k.Carrier) : String :=
  (Envelope.wrap (k.write v) c.target.table c.target.column).write

theorem encode?_eq (x : Option k.Carrier) : c.encode? x = .ok (x.map c.envelope) := by
  cases x with
  | none => rfl
  | some v => rfl

theorem isPrintable_of_mem {x : Option k.Carrier} : ∀ s ∈ x.map c.envelope, IsPrintable s := by
  intro s hs
  obtain ⟨v, _, rfl⟩ := Option.map_eq_some_iff.1 hs
  exact Json.isPrintable_compact _

theorem decode_envelope {v : k.Carrier} (h : (PlainValue.ofKind k v).IsRestorable) :
    c.decode (Bytes.ofString (c.envelope v)) = .ok v := by
  unfold decode envelope
  rw [Payload.decode, Payload.plaintext_write]
  exact Kind.read_write h

theorem decode?_map_envelope {x : Option k.Carrier}
    (h : ∀ v ∈ x, (PlainValue.ofKind k v).IsRestorable) :
    c.decode? ((x.map c.envelope).map Bytes.ofString) = .ok x := by
  cases x with
  | none => rfl
  | some v =>
    show (c.decode (Bytes.ofString (c.envelope v))).map some = .ok (some v)
    rw [c.decode_envelope (h v rfl)]
    rfl

theorem read_eq {row : List Cell} {i : Nat} {cell : Cell} (h : row[i]? = some cell) :
    c.read row i = c.readCell cell := by
  unfold read
  rw [h]

theorem readCell_ofParameter (stored : Option String) :
    c.readCell (Cell.ofParameter stored) = c.decode? (stored.map Bytes.ofString) := by
  cases stored with
  | none => rfl
  | some s => rfl

/-- **Null, empty values and envelopes stay apart.** Every value is stored, and only null as null. What
is stored otherwise is UTF-8 without controls, so a database gives it back, and reading gives the value
again, from the bytes or from the cell. A cell is read as its bytes are, and numbers are refused. -/
theorem read_bind (db : Storage) :
    (∀ x : Option k.Carrier, ∃ stored, c.encode? x = .ok stored ∧
      c.bind x = .ok (Cell.ofParameter stored) ∧ (stored = none ↔ x = none) ∧
      (∀ s ∈ stored, Bytes.text? (Bytes.ofString s) = some s ∧
        ∀ b ∈ Bytes.ofString s, 0x20 ≤ b.toNat) ∧
      ((∀ v ∈ x, (PlainValue.ofKind k v).IsRestorable) →
        c.decode? (stored.map Bytes.ofString) = .ok x ∧
        ∀ row i, row[i]? = some (db.fetch (Cell.ofParameter stored)) → c.read row i = .ok x)) ∧
    ∀ row i,
      (row[i]? = some .null → c.read row i = c.decode? none) ∧
      (∀ data, row[i]? = some (.text data) ∨ row[i]? = some (.blob data) →
        c.read row i = c.decode? (some data)) ∧
      (∀ n, row[i]? = some (.integer n) →
        c.read row i = .error (.malformedEnvelope (.cellHolds c.target.column "Integer"))) ∧
      ∀ x, row[i]? = some (.real x) →
        c.read row i = .error (.malformedEnvelope (.cellHolds c.target.column "Real")) := by
  constructor
  · intro x
    refine ⟨x.map c.envelope, c.encode?_eq x, ?_, Option.map_eq_none_iff, ?_, ?_⟩
    · unfold EncryptedColumn.bind
      rw [c.encode?_eq]
      rfl
    · intro s hs
      refine ⟨Bytes.text?_ofString s, fun b hb => ?_⟩
      exact (c.isPrintable_of_mem s hs).le_of_mem_ofString hb
    · intro h
      -- the envelope holds no controls, so the database gives it back
      refine ⟨c.decode?_map_envelope h, fun row i hrow => ?_⟩
      rw [db.fetch_ofParameter c.isPrintable_of_mem] at hrow
      rw [c.read_eq hrow, c.readCell_ofParameter]
      exact c.decode?_map_envelope h
  · intro row i
    refine ⟨fun h => c.read_eq h, fun data h => ?_, fun n h => c.read_eq h, fun x h => c.read_eq h⟩
    rcases h with h | h
    · exact c.read_eq h
    · exact c.read_eq h

def notes : EncryptedColumn Kind.text.Carrier := ⟨⟨"examples", "note"⟩⟩

def documents : EncryptedColumn Kind.document.Carrier := ⟨⟨"examples", "encrypted_jsonb"⟩⟩

def unaltered : Storage := ⟨id, rfl, fun _ _ _ => rfl⟩

theorem read_bind_empty :
    documents.bind none = .ok .null ∧
    (∃ stored, documents.bind (some []) = .ok (.text stored) ∧
      documents.read [unaltered.fetch (.text stored)] 0 = .ok (some [])) ∧
    ∃ stored, notes.bind (some "null\x00") = .ok (.text stored) ∧ (∀ b ∈ stored, 0x20 ≤ b.toNat) ∧
      notes.read [.null, unaltered.fetch (.text stored)] 1 = .ok (some "null\x00") := by
  refine ⟨rfl, ?_, ?_⟩
  · obtain ⟨stored, _, hbind, _, _, hread⟩ := (documents.read_bind unaltered).1 (some [])
    have hempty : ∀ v ∈ some ([] : Object), (PlainValue.ofKind .document v).IsRestorable := by
      intro v hv
      cases hv
      exact ⟨by decide, ⟨List.nodup_nil, trivial⟩, ⟨trivial, trivial⟩⟩
    cases stored with
    | none => cases hbind
    | some s => exact ⟨Bytes.ofString s, hbind, (hread hempty).2 _ 0 rfl⟩
  · obtain ⟨stored, _, hbind, _, hbytes, hread⟩ := (notes.read_bind unaltered).1 (some "null\x00")
    cases stored with
    | none => cases hbind
    | some s =>
      exact ⟨Bytes.ofString s, hbind, (hbytes s rfl).2, (hread fun _ _ => trivial).2 _ 1 rfl⟩

end EncryptedColumn

end EncryptedColumns
