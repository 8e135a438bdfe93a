import EncryptedColumns.Envelope
import EncryptedColumns.Proofs.RecordText
import Mathlib.Data.List.Basic

/-!
# Envelopes are written canonically

The typed reader of envelopes takes the written object for the envelope it was written
from, whatever the names and the plaintext hold. So writing loses nothing, and every text
that is read at all has one form in which it is written again.
-/

namespace EncryptedColumns

open Json (Reads Takes TakesAll Layout)

theorem ColumnRef.reads_toJson (r : ColumnRef) : Reads ColumnRef.reader r.toJson.compact r := by
  have ht : Takes layout.step {} ("t", (Json.string r.table).compact) { table := some r.table } :=
    Layout.takes rfl rfl (Json.reads_text r.table) rfl
  have hc : Takes layout.step { table := some r.table } ("c", (Json.string r.column).compact)
      { table := some r.table, column := some r.column } :=
    Layout.takes rfl rfl (Json.reads_text r.column) rfl
  exact Layout.reads_object ⟨_, ht, _, hc, rfl⟩ fun _ => rfl

namespace Envelope

theorem reads_toJson (e : Envelope) : Reads reader e.toJson.compact e := by
  have hk : Takes layout.step {} ("k", (Json.string e.tag).compact) { tag := some e.tag } :=
    Layout.takes rfl rfl (Json.reads_text e.tag) rfl
  have hp : Takes layout.step { tag := some e.tag } ("p", (Json.string e.plaintext).compact)
      { tag := some e.tag, plaintext := some e.plaintext } :=
    Layout.takes rfl rfl (Json.reads_text e.plaintext) rfl
  have hi : Takes layout.step { tag := some e.tag, plaintext := some e.plaintext }
      ("i", e.target.toJson.compact)
      { tag := some e.tag, plaintext := some e.plaintext, target := some e.target } :=
    Layout.takes rfl rfl e.target.reads_toJson rfl
  have hv : Takes layout.step
      { tag := some e.tag, plaintext := some e.plaintext, target := some e.target }
      ("v", (Json.number (.whole e.version.toNat (range_toNat e.version))).compact)
      ⟨some e.tag, some e.plaintext, some e.target, some e.version⟩ :=
    Layout.takes rfl rfl (Json.reads_word32 e.version _) rfl
  exact Layout.reads_object ⟨_, hk, _, hp, _, hi, _, hv, rfl⟩ fun _ => rfl

def wire (e : Envelope) : Bytes :=
  Bytes.ofString e.write

theorem readAll_wire (e : Envelope) : reader.readAll e.wire = .ok e :=
  e.reads_toJson.readAll

theorem eq_of_wire_eq {e e' : Envelope} (h : e.wire = e'.wire) : e = e' := by
  have hr : reader.readAll e.wire = .ok e' := h ▸ e'.readAll_wire
  rw [readAll_wire] at hr
  exact Except.ok.inj hr

def rewritten (text : Bytes) : Except Json.Fault Bytes := do
  return (← reader.readAll text).wire

theorem rewritten_of_readAll {text : Bytes} {e : Envelope} (h : reader.readAll text = .ok e) :
    rewritten text = .ok e.wire :=
  bind_eq_ok.2 ⟨e, h, rfl⟩

theorem eq_wrap {e : Envelope} (hk : e.tag = Tag.plaintext.name) (hv : e.version = currentVersion) :
    e = wrap e.plaintext e.target.table e.target.column := by
  obtain ⟨tag, p, ⟨t, c⟩, version⟩ := e
  cases hk
  cases hv
  rfl

/-- **Envelopes have one form.** What is written is read as the envelope. A text that is read as an
envelope, in whatever form, is written again as the one text that stays as it is, which for a plaintext
of the current version is the encoded one. Encoded texts that agree were encoded from the same plaintext
for the same column. -/
theorem wire_canonical :
    (∀ e : Envelope, reader.readAll e.wire = .ok e) ∧
    (∀ (text : Bytes) (e : Envelope), reader.readAll text = .ok e →
      rewritten text = .ok e.wire ∧ reader.readAll e.wire = .ok e ∧ rewritten e.wire = .ok e.wire ∧
      (e.tag = "pt" → e.version = 1 →
        e.wire = (wrap e.plaintext e.target.table e.target.column).wire)) ∧
    ∀ p t c p' t' c' : String, (wrap p t c).wire = (wrap p' t' c').wire → p = p' ∧ t = t' ∧ c = c' := by
  refine ⟨readAll_wire, fun text e h => ?_, fun p t c p' t' c' h => ?_⟩
  · exact ⟨rewritten_of_readAll h, e.readAll_wire, rewritten_of_readAll e.readAll_wire,
      fun hk hv => congrArg wire (eq_wrap hk hv)⟩
  · cases eq_of_wire_eq h
    exact ⟨rfl, rfl, rfl⟩

theorem wire_canonical_array :
    rewritten (Bytes.ofString " [\"pt\", \"x\\u0041\",[\"t\",\"c\"],1]") = .ok (wrap "xA" "t" "c").wire ∧
    rewritten (wrap "xA" "t" "c").wire = .ok (wrap "xA" "t" "c").wire ∧
    (wrap "a\",\"i\":\x7b\"t\":\"b" "t" "c").wire ≠ (wrap "a" "b" "c").wire := by
  have h : reader.readAll (Bytes.ofString " [\"pt\", \"x\\u0041\",[\"t\",\"c\"],1]") =
      .ok (wrap "xA" "t" "c") := by
    decide +kernel
  obtain ⟨hread, _, hagain, _⟩ := wire_canonical.2.1 _ _ h
  refine ⟨hread, hagain, fun heq => ?_⟩
  exact absurd (wire_canonical.2.2 _ _ _ _ _ _ heq).1 (by decide)

end Envelope

end EncryptedColumns
