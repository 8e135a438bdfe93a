import EncryptedColumns.EncryptedColumn
import EncryptedColumns.Proofs.Additions
import EncryptedColumns.Proofs.Operands

/-!
# Typed columns and the registry

A column can be used through its type or through the registry that lists it. Both write
the same envelopes and read a payload alike, up to the range of the cast, which only the
registry knows.
-/

namespace EncryptedColumns

namespace Refusal

def IsOutOfRange (e : Refusal) : Prop :=
  ∃ table column cast n, e = .outOfRange table column cast n

end Refusal

theorem Refusal.IsOfPayload.not_isOutOfRange {e : Refusal} (h : e.IsOfPayload) : ¬ e.IsOutOfRange := by
  rintro ⟨t, c, cast, n, rfl⟩
  exact h

namespace Payload

section
variable {k : Kind} {data : Bytes}

theorem decodeAs_eq_map_decode :
    decodeAs data k = (decode k.Carrier data).map (PlainValue.ofKind k) := by
  rw [decodeAs, decode]
  cases plaintext data with
  | error e => rfl
  | ok p => rfl

theorem not_isOutOfRange_of_decode {e : Refusal} (h : decode k.Carrier data = .error e) :
    ¬ e.IsOutOfRange := by
  have hdecode : decodeAs data k = .error e := by
    rw [decodeAs_eq_map_decode, h]
    rfl
  exact (isOfPayload_of_decodeAs hdecode).not_isOutOfRange

end

end Payload

/-! ## Reading -/

namespace Registry

section
variable {r : Registry} {table column : String} {spec : ColumnSpec} {data : Bytes}
  (hspec : r.column table column = .ok spec)
include hspec

theorem decodeColumn_of_decode_error {e : Refusal}
    (h : Payload.decode spec.kind.Carrier data = .error e) :
    r.decodeColumn table column data = .error e := by
  obtain ⟨specs, ht, hc⟩ := column_eq_ok_iff.1 hspec
  rw [decodeColumn_eq ht hc, Payload.decodeAs_eq_map_decode, h]
  rfl

theorem decodeColumn_of_decode_ok {v : spec.kind.Carrier}
    (h : Payload.decode spec.kind.Carrier data = .ok v) :
    (∀ n, PlainValue.ofKind spec.kind v = .integer n → spec.cast.Excludes n →
      r.decodeColumn table column data = .error (.outOfRange table column spec.cast n)) ∧
    ((∀ n, PlainValue.ofKind spec.kind v = .integer n → ¬ spec.cast.Excludes n) →
      r.decodeColumn table column data = .ok (.ofKind spec.kind v)) := by
  obtain ⟨specs, ht, hc⟩ := column_eq_ok_iff.1 hspec
  have hd : Payload.decodeAs data spec.kind = .ok (.ofKind spec.kind v) := by
    rw [Payload.decodeAs_eq_map_decode, h]
    rfl
  constructor
  · intro n hn he
    exact decodeColumn_of_excludes ht hc (hn ▸ hd) he
  · intro hin
    rw [decodeColumn_of_not_excludes ht hc, hd]
    intro n hn
    rw [hd] at hn
    exact hin n (Except.ok.inj hn)

theorem isOutOfRange_decodeColumn_iff :
    (∃ e, r.decodeColumn table column data = .error e ∧ e.IsOutOfRange) ↔
      ∃ v n, Payload.decode spec.kind.Carrier data = .ok v ∧
        PlainValue.ofKind spec.kind v = .integer n ∧ spec.cast.Excludes n := by
  constructor
  · rintro ⟨e, he, hrange⟩
    cases hd : Payload.decode spec.kind.Carrier data with
    | error e' =>
      rw [decodeColumn_of_decode_error hspec hd] at he
      cases he
      exact absurd hrange (Payload.not_isOutOfRange_of_decode hd)
    | ok v =>
      by_cases hn : ∃ n, PlainValue.ofKind spec.kind v = .integer n ∧ spec.cast.Excludes n
      · obtain ⟨n, hn, hx⟩ := hn
        exact ⟨v, n, rfl, hn, hx⟩
      · have hin := (decodeColumn_of_decode_ok hspec hd).2 fun n h hx => hn ⟨n, h, hx⟩
        rw [hin] at he
        cases he
  · rintro ⟨v, n, hd, hn, hx⟩
    exact ⟨_, (decodeColumn_of_decode_ok hspec hd).1 n hn hx, table, column, spec.cast, n, rfl⟩

end

/-! ## Writing -/

theorem eq_wrap_of_operand {r : Registry} {table column : String} {mode : QueryMode}
    {value : PlainValue} {out : String} (h : r.operand table column mode value = .ok out) :
    out = (Envelope.wrap value.write table column).write := by
  obtain ⟨spec, _, h⟩ := bind_eq_ok.1 h
  have hwrap : EncryptedColumns.operand value table column mode =
      .ok (Envelope.wrap value.write table column).write := rfl
  by_cases hm : mode ≠ .steVec
  · rw [if_pos hm] at h
    by_cases hk : value.kind ≠ spec.kind
    · rw [if_pos hk] at h
      cases h
    · rw [if_neg hk] at h
      obtain ⟨_, _, h⟩ := bind_eq_ok.1 h
      exact Except.ok.inj (h.symm.trans hwrap)
  · rw [if_neg hm] at h
    exact Except.ok.inj (h.symm.trans hwrap)

theorem eq_wrap_of_pathOperand {r : Registry} {table column path out : String}
    (h : r.pathOperand table column path = .ok out) :
    out = (Envelope.wrap path table column).write := by
  obtain ⟨_, _, h⟩ := bind_eq_ok.1 h
  exact (Except.ok.inj h).symm

end Registry

theorem EncryptedColumn.checked_of_isColumn {table column : String}
    (ht : Identifier.isTable table = true) (hc : Identifier.isColumn column = true) (α : Type) :
    checked α table column = .ok ⟨⟨table, column⟩⟩ := by
  rw [checked, ColumnRef.checked, checkTable, checkColumn, if_pos ht, if_pos hc]
  rfl

/-- **A typed column agrees with the registry.** Every column of a registry that came about by
additions can be bound to the type of its kind. A payload that the bound column refuses is refused
alike by the registry, and what it decodes to is what the registry decodes to, unless it is an integer
outside the range. An operand that the registry accepts is what a column bound to the type of the
operand writes. -/
theorem EncryptedColumn.agrees_with_registry {start : Registry} (h : start.IsInitial)
    (calls : List Registry.Addition) {table column : String} {spec : ColumnSpec}
    (hspec : (Registry.addAll calls start).column table column = .ok spec) :
    let r := Registry.addAll calls start
    (∃ bound, checked spec.kind.Carrier table column = .ok bound ∧ ∀ data,
      (∀ e, bound.decode data = .error e → r.decodeColumn table column data = .error e) ∧
      (∀ v, bound.decode data = .ok v →
        (∀ n, PlainValue.ofKind spec.kind v = .integer n → spec.cast.Excludes n →
          r.decodeColumn table column data = .error (.outOfRange table column spec.cast n)) ∧
        ((∀ n, PlainValue.ofKind spec.kind v = .integer n → ¬ spec.cast.Excludes n) →
          r.decodeColumn table column data = .ok (.ofKind spec.kind v))) ∧
      ((∃ e, r.decodeColumn table column data = .error e ∧ e.IsOutOfRange) ↔
        ∃ v n, bound.decode data = .ok v ∧ PlainValue.ofKind spec.kind v = .integer n ∧
          spec.cast.Excludes n)) ∧
    ∀ (k : Kind) (v : k.Carrier) (mode : QueryMode) (out : String),
      r.operand table column mode (.ofKind k v) = .ok out →
        ∃ bound, checked k.Carrier table column = .ok bound ∧
          bound.encode v = .ok out ∧ bound.operand v mode = .ok out := by
  intro r
  obtain ⟨ht, hc⟩ := (Registry.isValid_addAll h.isValid calls).names.of_column hspec
  refine ⟨⟨_, checked_of_isColumn ht hc _, fun data => ⟨fun e he => ?_, fun v hv => ?_, ?_⟩⟩,
    fun k v mode out hout => ⟨_, checked_of_isColumn ht hc _, ?_⟩⟩
  · exact Registry.decodeColumn_of_decode_error hspec he
  · exact Registry.decodeColumn_of_decode_ok hspec hv
  · exact Registry.isOutOfRange_decodeColumn_iff hspec
  · -- the registry has checked more than the bound column, which only writes
    obtain rfl := Registry.eq_wrap_of_operand hout
    rw [PlainValue.write_ofKind]
    exact ⟨rfl, rfl⟩

def ageCalls : List Registry.Addition :=
  [⟨"users", "age", { cast := .smallInt, indexes := { ore := some [] } }⟩]

theorem EncryptedColumn.agrees_with_registry_age :
    (∃ bound, checked Int64 "users" "age" = .ok bound ∧
      bound.decode (Bytes.ofString oldAge) = .ok 40000 ∧
      (Registry.addAll ageCalls .empty).decodeColumn "users" "age" (Bytes.ofString oldAge) =
        .error (.outOfRange "users" "age" .smallInt 40000) ∧
      bound.decode [] = .error (.malformedEnvelope (.json .endInValue)) ∧
      (Registry.addAll ageCalls .empty).decodeColumn "users" "age" [] =
        .error (.malformedEnvelope (.json .endInValue))) ∧
    ∃ bound out, checked Int64 "users" "age" = .ok bound ∧
      (Registry.addAll ageCalls .empty).operand "users" "age" .ore (.integer 7) = .ok out ∧
      bound.operand 7 .ore = .ok out := by
  have hspec : (Registry.addAll ageCalls .empty).column "users" "age" =
      .ok { cast := .smallInt, indexes := { ore := some [] } } := rfl
  obtain ⟨⟨(bound : EncryptedColumn Int64), hbound, hread⟩, hwrite⟩ :=
    agrees_with_registry .empty ageCalls hspec
  refine ⟨⟨bound, hbound, ?_⟩, ?_⟩
  · have hold : bound.decode (Bytes.ofString oldAge) = .ok 40000 := by
      show Payload.decode (Kind.Carrier .integer) _ = _
      rw [Payload.decode, oldAge, Payload.plaintext_write]
      exact Kind.read_write (k := .integer) (v := (40000 : Int64)) trivial
    have hnone : bound.decode [] = .error (.malformedEnvelope (.json .endInValue)) := rfl
    refine ⟨hold, ?_, hnone, (hread []).1 _ hnone⟩
    exact ((hread _).2.1 _ hold).1 40000 rfl (.inr (by decide))
  · have hout : (Registry.addAll ageCalls .empty).operand "users" "age" .ore (.integer 7) =
        .ok (Envelope.wrap (Integer.write 7) "users" "age").write := rfl
    obtain ⟨other, hother, _, hoperand⟩ := hwrite .integer (7 : Int64) .ore _ hout
    exact ⟨other, _, hother, hout, hoperand⟩

end EncryptedColumns
