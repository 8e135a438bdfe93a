import EncryptedColumns.Json.Record
import EncryptedColumns.Proofs.ValueText

/-!
# Records are read back

The reader of a record takes in one field after the other. If each field, written with
its value, brings the draft a step closer to the record, the object of all of them is
read as the record.
-/

namespace EncryptedColumns.Json

theorem lead_of_quote (bs : Bytes) :
    lead ('"'.toUInt8 :: bs) = .ok (.scalar .string, '"'.toUInt8, bs) := rfl

theorem reads_text (s : String) : Reads text (Json.string s).compact s := by
  intro rest _
  obtain ⟨body, hbody, hc⟩ := ofString_literal s
  rw [compact, hbody, List.cons_append]
  simp only [text, lead_of_quote]
  exact hc rest

theorem reads_oneOf {α : Type} {known : List (String × α)} {name : String} {a : α}
    (h : known.lookup name = some a) : Reads (oneOf known) (Json.string name).compact a := by
  intro rest _
  obtain ⟨body, hbody, hc⟩ := ofString_literal name
  rw [compact, hbody, List.cons_append]
  exact run_oneOf (skipBlanks_cons (by decide) _) (hc rest) h

theorem reads_optional {α : Type} {r : Reader α} {fields : Object} {a : α}
    (h : Reads r (Json.object fields).compact a) :
    Reads (optional r) (Json.object fields).compact (some a) := by
  intro rest hs
  have hrun := (h.map some) rest hs
  rw [ofString_object, List.cons_append] at hrun ⊢
  simp only [optional, lead_brace]
  exact hrun

section
variable (n : UInt32)
  (range : -0x8000000000000000 ≤ (n.toNat : Int) ∧ (n.toNat : Int) < 0x10000000000000000)

theorem bounded_toNat : bounded (.whole n.toNat range) = .ok n := by
  have hlt : 0 ≤ (n.toNat : Int) ∧ (n.toNat : Int) < 0x100000000 := by
    have := n.toNat_lt
    omega
  rw [bounded, if_pos hlt, Int.toNat_natCast, UInt32.ofNat_toNat]

theorem reads_word32 : Reads word32 (Json.number (.whole n.toNat range)).compact n := by
  intro rest hs
  obtain ⟨m, hm, hv⟩ := isReadBack_whole n.toNat range
  have hrun := numeral_append hs hm
  obtain ⟨b, bs, hbs, hl⟩ := lead_of_numeral hm
  rw [hbs, List.cons_append] at hrun
  rw [compact, hbs, List.cons_append]
  simp only [word32, hl]
  exact bind_eq_ok.2 ⟨_, hrun, bind_eq_ok.2 ⟨_, hv, bind_eq_ok.2 ⟨n, bounded_toNat n range, rfl⟩⟩⟩

end

namespace Layout

variable {σ α : Type} {layout : Layout σ α}

theorem takes {β : Type} {s t : σ} {name key text : String} {isSet : σ → Bool} {r : Reader β}
    {update : β → σ → σ} {b : β}
    (hf : layout.fields.find? (·.name = key) = some ⟨name, isSet, r.map update⟩)
    (hs : isSet s = false) (hr : Reads r text b) (ht : update b s = t) :
    Takes layout.step s (key, text) t := by
  refine ⟨(r.map update).map (· s), ?_, ht ▸ (hr.map update).map (· s)⟩
  rw [step, hf]
  exact if_neg (by simp [hs])

/-- **Records.** An object whose fields lead to a complete draft is read as its record. -/
theorem reads_object {blank s : σ} {a : α} {fields : Object}
    (h : TakesAll layout.step blank (fields.map fun f => (f.1, f.2.compact)) s)
    (hc : ∀ missing, layout.complete missing s = .ok a) :
    Reads (layout.reader blank) (Json.object fields).compact a := by
  intro rest _
  obtain ⟨body, hb, hm⟩ := members_compact h rest
  rw [hb, List.cons_append]
  simp only [reader, lead_brace, hm, bind, Except.bind, hc]
  rfl

end Layout

end EncryptedColumns.Json
