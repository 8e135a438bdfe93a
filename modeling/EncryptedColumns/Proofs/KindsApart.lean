import EncryptedColumns.Proofs.RoundTrip

/-!
# Kinds are not confused

The first character of a text decides which kind it may be read as, other than as text: a sign
or a digit for integers, the letters of `true` and `false` for booleans, a brace or a blank for
documents. So no text is read as two of these kinds, and what was written as one of them is
refused as the others.
-/

namespace EncryptedColumns

/-! ## Where a document starts -/

namespace Json

theorem mem_of_isBlank {b : UInt8} (h : isBlank b = true) : Char.ofUInt8 b ∈ [' ', '\n', '\t', '\r'] := by
  unfold isBlank at h
  split at h
  · rename_i hc; rw [hc]; decide
  · rename_i hc; rw [hc]; decide
  · rename_i hc; rw [hc]; decide
  · rename_i hc; rw [hc]; decide
  · cases h

theorem ofUInt8_of_object {b : UInt8} (h : Lead.of? b = some .object) : Char.ofUInt8 b = '{' := by
  unfold Lead.of? at h
  split at h
  · cases h
  · cases h
  · cases h
  · cases h
  · cases h
  · cases h
  · assumption
  · split at h <;> cases h

theorem head_of_lead_object {bs rest : Bytes} {b : UInt8} (h : lead bs = .ok (.object, b, rest)) :
    ∃ c bs', bs = c :: bs' ∧ Char.ofUInt8 c ∈ ['{', ' ', '\n', '\t', '\r'] := by
  cases bs with
  | nil => cases h
  | cons c bs =>
    refine ⟨c, bs, rfl, ?_⟩
    by_cases hb : isBlank c = true
    · exact List.mem_cons_of_mem _ (mem_of_isBlank hb)
    · rw [lead, skipBlanks_cons (by simpa using hb)] at h
      cases hl : Lead.of? c with
      | none => simp [hl] at h
      | some l =>
        simp only [hl] at h
        cases h
        rw [ofUInt8_of_object hl]
        exact List.mem_cons_self ..

theorem lead_of_document {n : Nat} {bs : Bytes} {o : Object} (h : (document n).readAll bs = .ok o) :
    ∃ b rest, lead bs = .ok (.object, b, rest) := by
  obtain ⟨rest, hrun, _⟩ := eq_nil_of_readAll h
  cases n with
  | zero => cases hrun
  | succ n =>
    simp only [document, fieldsOf] at hrun
    split at hrun
    · rename_i hl
      exact ⟨_, _, hl⟩
    · cases hrun

end Json

theorem Bytes.toList_of_ofString {p : String} {b : UInt8} {bs : Bytes} (h : ofString p = b :: bs)
    (hb : (Char.ofUInt8 b).toNat < 128) : ∃ cs, p.toList = Char.ofUInt8 b :: cs := by
  rw [ofString_eq_flatMap] at h
  cases hp : p.toList with
  | nil => rw [hp] at h; cases h
  | cons c cs =>
    rw [hp, List.flatMap_cons] at h
    by_cases hc : c.toNat < 128
    · rw [utf8EncodeChar_ascii hc] at h
      cases h
      rw [ofUInt8_toUInt8 hc]
      exact ⟨cs, rfl⟩
    · -- a character beyond ASCII has no byte below 128
      have hmem : b ∈ String.utf8EncodeChar c := by
        cases he : String.utf8EncodeChar c with
        | nil => exact absurd he String.utf8EncodeChar_ne_nil
        | cons d ds =>
          rw [he] at h
          cases h
          exact List.mem_cons_self ..
      have hge := le_toNat_of_mem_utf8EncodeChar (Nat.le_of_not_lt hc) hmem
      rw [toNat_ofUInt8] at hb
      omega

namespace Kind

/-! ## First characters -/

def ofInitial? (c : Char) : Option Kind :=
  if c = '+' ∨ c = '-' ∨ c.isDigit = true then some .integer
  else if c = 't' ∨ c = 'f' then some .boolean
  else if c ∈ ['{', ' ', '\n', '\t', '\r'] then some .document
  else none

/-- The only kind but text that the text may be read as. -/
def apparent? (p : String) : Option Kind :=
  p.toList.head?.bind ofInitial?

theorem apparent?_of_toList {p : String} {c : Char} {cs : List Char} (h : p.toList = c :: cs) :
    apparent? p = ofInitial? c := by
  rw [apparent?, h]
  rfl

theorem apparent?_of_spells {p : String} {v : Int} (h : Integer.Spells p.toList v) :
    apparent? p = some .integer := by
  generalize hp : p.toList = cs at h
  cases h with
  | plain hd =>
    cases cs with
    | nil => exact absurd rfl hd.nonempty
    | cons c cs =>
      rw [apparent?_of_toList hp]
      exact if_pos (.inr (.inr (hd.digits c (List.mem_cons_self ..))))
  | plus hd => exact apparent?_of_toList hp
  | minus hd => exact apparent?_of_toList hp

theorem ofInitial?_of_mem {c : Char} (h : c ∈ ['{', ' ', '\n', '\t', '\r']) :
    c.toNat < 128 ∧ ofInitial? c = some .document := by
  simp only [List.mem_cons, List.not_mem_nil, or_false] at h
  rcases h with rfl | rfl | rfl | rfl | rfl <;> decide

theorem apparent?_of_read {k : Kind} (hk : k ≠ .text) {p : String} {v : k.Carrier}
    (h : k.read p = .ok v) : apparent? p = some k := by
  cases k with
  | text => exact absurd rfl hk
  | integer =>
    rw [read] at h
    split at h
    · rename_i n hn
      exact apparent?_of_spells (Integer.spells_of_read hn)
    · cases h
  | boolean =>
    rw [read] at h
    split at h
    · rename_i hp; rw [hp]; decide
    · split at h
      · rename_i hp; rw [hp]; decide
      · cases h
  | document =>
    rw [read] at h
    split at h
    · rename_i o ho
      obtain ⟨b, rest, hlead⟩ := Json.lead_of_document ho
      obtain ⟨c, bs, hbs, hc⟩ := Json.head_of_lead_object hlead
      obtain ⟨hascii, hkind⟩ := ofInitial?_of_mem hc
      obtain ⟨cs, hp⟩ := Bytes.toList_of_ofString hbs hascii
      rw [apparent?_of_toList hp, hkind]
    · cases h

theorem apparent?_write {k : Kind} (hk : k ≠ .text) (v : k.Carrier) : apparent? (k.write v) = some k := by
  cases k with
  | text => exact absurd rfl hk
  | integer => exact apparent?_of_spells (Integer.spells_write v)
  | boolean => cases v <;> decide
  | document =>
    have hw : (Kind.document.write v).toList = '{' :: (Json.separated (Json.compactFields v) ++ "\x7d").toList := by
      rw [write, Json.compact, String.append_assoc, String.toList_append]
      rfl
    rw [apparent?_of_toList hw]
    decide

end Kind

def Refusal.unfitFor? : Refusal → Option Kind
  | .malformedNumber _ _ => some .integer
  | .malformedBoolean _ => some .boolean
  | .malformedDocument _ => some .document
  | _ => none

theorem Kind.unfitFor?_of_read {k : Kind} {p : String} {e : Refusal} (h : k.read p = .error e) :
    e.unfitFor? = some k := by
  cases k with
  | text => cases h
  | integer | document =>
    rw [read] at h
    split at h
    · cases h
    · cases h
      rfl
  | boolean =>
    rw [read] at h
    split at h
    · cases h
    · split at h
      · cases h
      · cases h
        rfl

namespace Payload

theorem apparent?_of_decodeAs {data : Bytes} {p : String} (hp : plaintext data = .ok p) {k : Kind}
    (hk : k ≠ .text) {v : PlainValue} (h : decodeAs data k = .ok v) : Kind.apparent? p = some k := by
  rw [decodeAs_eq_map_read hp] at h
  cases hr : k.read p with
  | error e => rw [hr] at h; cases h
  | ok a => exact Kind.apparent?_of_read hk hr

/-- **Kinds are not confused.** A payload is decoded as at most one of the kinds other than text.
What is encoded of a value is decoded as text to what was written of the value. As any other kind
that is not its own, a value that is no text is refused because it does not fit that kind. -/
theorem decodeAs_kinds_apart :
    (∀ (data : Bytes) (k k' : Kind) (v v' : PlainValue), k ≠ .text → k' ≠ .text →
      decodeAs data k = .ok v → decodeAs data k' = .ok v' → k = k') ∧
    ∀ (v : PlainValue) (table column : String), ∃ p text,
      render v = .ok p ∧ encode v table column = .ok text ∧
      decodeAs (Bytes.ofString text) .text = .ok (.text p) ∧
      ∀ k', k' ≠ v.kind → v.kind ≠ .text → k' ≠ .text →
        ∃ e, decodeAs (Bytes.ofString text) k' = .error e ∧ e.unfitFor? = some k' := by
  constructor
  · intro data k k' v v' hk hk' h h'
    obtain ⟨p, hp, _⟩ := bind_eq_ok.1 h
    have hkind := apparent?_of_decodeAs hp hk h
    rw [apparent?_of_decodeAs hp hk' h'] at hkind
    exact (Option.some.inj hkind).symm
  · intro v table column
    have hp : plaintext (Bytes.ofString (Envelope.wrap v.write table column).write) = .ok v.write :=
      plaintext_write _
    refine ⟨v.write, _, rfl, rfl, decodeAs_eq_map_read hp .text, fun k' hne hk hk' => ?_⟩
    obtain ⟨a, ha⟩ := v.exists_ofKind
    have hkind : Kind.apparent? v.write = some v.kind := by
      rw [← ha, PlainValue.write_ofKind, PlainValue.kind_ofKind]
      exact Kind.apparent?_write hk a
    rw [decodeAs_eq_map_read hp]
    cases hr : k'.read v.write with
    | error e => exact ⟨e, rfl, Kind.unfitFor?_of_read hr⟩
    | ok b =>
      -- the first character cannot be that of two kinds
      rw [Kind.apparent?_of_read hk' hr] at hkind
      exact absurd (Option.some.inj hkind) hne

theorem decodeAs_kinds_apart_blank :
    (decodeAs (Bytes.ofString (Envelope.wrap " \x7b\x7d" "t" "c").write) .document = .ok (.document []) ∧
      ∀ k v, k ≠ .text →
        decodeAs (Bytes.ofString (Envelope.wrap " \x7b\x7d" "t" "c").write) k = .ok v → .document = k) ∧
    ∃ text e, encode (PlainValue.integer (-7)) "t" "c" = .ok text ∧
      decodeAs (Bytes.ofString text) .document = .error e ∧ e.unfitFor? = some .document := by
  have hdocument : decodeAs (Bytes.ofString (Envelope.wrap " \x7b\x7d" "t" "c").write) .document =
      .ok (.document []) := by
    rw [decodeAs_eq_map_read (plaintext_write _)]
    rfl
  refine ⟨⟨hdocument, fun k v hk h =>
    decodeAs_kinds_apart.1 _ .document k _ v (by decide) hk hdocument h⟩, ?_⟩
  obtain ⟨p, text, _, htext, _, hrefused⟩ := decodeAs_kinds_apart.2 (.integer (-7)) "t" "c"
  obtain ⟨e, he, hkind⟩ := hrefused .document (by decide) (by decide) (by decide)
  exact ⟨text, e, htext, he, hkind⟩

end Payload

end EncryptedColumns
