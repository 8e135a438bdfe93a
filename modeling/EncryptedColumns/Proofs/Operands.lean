import EncryptedColumns.Proofs.Cells

/-!
# Operands are values of the column

A column accepts an operand exactly when it could hold it: when the operand, stored in
the column and read again, is what comes back. A text that spells a number is read
from an integer column as that number, and is therefore no operand for it.
-/

namespace EncryptedColumns

theorem PlainValue.kind_of_parse {k : Kind} {p : String} {v : PlainValue} (h : parse k p = .ok v) :
    v.kind = k := by
  rw [parse] at h
  cases hr : k.read p with
  | error e => rw [hr] at h; cases h
  | ok a =>
    rw [hr] at h
    cases h
    exact kind_ofKind k a

namespace Payload

theorem kind_of_decodeAs {data : Bytes} {k : Kind} {v : PlainValue} (h : decodeAs data k = .ok v) :
    v.kind = k := by
  obtain ⟨p, _, h⟩ := bind_eq_ok.1 h
  exact PlainValue.kind_of_parse h

theorem decodeAs_wrap {v : PlainValue} (h : v.IsRestorable) (table column : String) :
    decodeAs (Bytes.ofString (Envelope.wrap v.write table column).write) v.kind = .ok v := by
  rw [decodeAs, plaintext_write]
  exact PlainValue.parse_write h

end Payload

namespace Registry

section
variable {r : Registry} {table column : String} {mode : QueryMode} {spec : ColumnSpec}
  {value : PlainValue} (hspec : r.column table column = .ok spec) (hindex : spec.supports mode = true)
  (hmode : mode ≠ .steVec)
include hspec hindex

theorem requireIndex_of_supports : r.requireIndex table column mode = .ok spec := by
  rw [requireIndex, hspec]
  exact if_pos hindex

include hmode

theorem operand_of_kind_ne (hk : value.kind ≠ spec.kind) :
    r.operand table column mode value =
      .error (.kindMismatch table column spec.kind value.kind) := by
  rw [operand, requireIndex_of_supports hspec hindex]
  show (if mode ≠ .steVec then if value.kind ≠ spec.kind then _ else _ else _) = _
  rw [if_pos hmode, if_pos hk]
  rfl

theorem operand_of_kind_eq (hk : value.kind = spec.kind) :
    r.operand table column mode value =
      (spec.checkRange table column value).bind fun _ =>
        .ok (Envelope.wrap value.write table column).write := by
  rw [operand, requireIndex_of_supports hspec hindex]
  show (if mode ≠ .steVec then if value.kind ≠ spec.kind then _ else _ else _) = _
  rw [if_pos hmode, if_neg (not_not_intro hk)]
  rfl

omit hindex hmode in
theorem kind_of_decodeColumn {data : Bytes} (h : r.decodeColumn table column data = .ok value) :
    value.kind = spec.kind := by
  obtain ⟨specs, ht, hc⟩ := column_eq_ok_iff.1 hspec
  rw [decodeColumn_eq ht hc] at h
  obtain ⟨v, hv, h⟩ := bind_eq_ok.1 h
  obtain ⟨_, _, h⟩ := bind_eq_ok.1 h
  cases h
  exact Payload.kind_of_decodeAs hv

/-- **Operands are the values that the column holds.** Outside `ste_vec` a value is accepted exactly
when its envelope is read from the column as the value, and then the operand is this envelope.
It is refused for its kind, or else as an integer outside the range. -/
theorem operand_eq_ok_iff (hv : value.IsRestorable) :
    ∃ text, encode value table column = .ok text ∧
      (∀ out, r.operand table column mode value = .ok out ↔
        r.decodeColumn table column (Bytes.ofString text) = .ok value ∧ out = text) ∧
      ∀ e, r.operand table column mode value = .error e ↔
        (value.kind ≠ spec.kind ∧ e = .kindMismatch table column spec.kind value.kind) ∨
        (value.kind = spec.kind ∧ ∃ n, value = .integer n ∧ spec.cast.Excludes n ∧
          e = .outOfRange table column spec.cast n) := by
  refine ⟨_, rfl, ?_⟩
  by_cases hk : value.kind = spec.kind
  · obtain ⟨specs, ht, hc⟩ := column_eq_ok_iff.1 hspec
    have hdecode := Payload.decodeAs_wrap hv table column
    rw [hk] at hdecode
    rw [operand_of_kind_eq hspec hindex hmode hk]
    by_cases hn : ∃ n, value = .integer n ∧ spec.cast.Excludes n
    · -- both sides look at the range
      obtain ⟨n, rfl, he⟩ := hn
      rw [ColumnSpec.checkRange_of_excludes he, decodeColumn_of_excludes ht hc hdecode he]
      constructor
      · simp [Except.bind]
      · simp [Except.bind, hk, he, eq_comm]
    · have hin : ∀ n, value = .integer n → ¬ spec.cast.Excludes n :=
        fun n h he => hn ⟨n, h, he⟩
      rw [ColumnSpec.checkRange_of_not_excludes hin,
        decodeColumn_of_not_excludes ht hc (by rw [hdecode]; exact fun n h => hin n (Except.ok.inj h)),
        hdecode]
      constructor
      · simp [Except.bind, eq_comm]
      · intro e
        constructor
        · intro h; cases h
        · rintro (⟨hne, _⟩ | ⟨_, n, h, he, _⟩)
          · exact absurd hk hne
          · exact absurd he (hin n h)
  · have hdecode {data : Bytes} : r.decodeColumn table column data ≠ .ok value :=
      fun h => hk (kind_of_decodeColumn hspec h)
    rw [operand_of_kind_ne hspec hindex hmode hk]
    constructor
    · simp [hdecode]
    · simp [hk, eq_comm]

end

def ranked : Registry :=
  empty.insert "users" "age" { cast := .smallInt, indexes := { ore := some [] } }

theorem operand_eq_ok_iff_ranked :
    ranked.operand "users" "age" .ore (.text "23") =
      .error (.kindMismatch "users" "age" .integer .text) ∧
    ranked.operand "users" "age" .ore (.integer 40000) =
      .error (.outOfRange "users" "age" .smallInt 40000) ∧
    ∃ out, ranked.operand "users" "age" .ore (.integer (-32768)) = .ok out ∧
      ranked.decodeColumn "users" "age" (Bytes.ofString out) = .ok (.integer (-32768)) := by
  have hspec : ranked.column "users" "age" =
      .ok { cast := .smallInt, indexes := { ore := some [] } } := rfl
  have hindex : ColumnSpec.supports { cast := .smallInt, indexes := { ore := some [] } } .ore = true :=
    rfl
  have hgate (v : PlainValue) (hv : v.IsRestorable) :=
    operand_eq_ok_iff hspec hindex (by decide) hv
  obtain ⟨_, _, _, htext⟩ := hgate (.text "23") trivial
  obtain ⟨_, _, _, hbig⟩ := hgate (.integer 40000) trivial
  obtain ⟨_, _, hleast, hrefused⟩ := hgate (.integer (-32768)) trivial
  refine ⟨(htext _).2 (.inl ⟨by decide, rfl⟩),
    (hbig _).2 (.inr ⟨rfl, 40000, rfl, .inr (by decide), rfl⟩), ?_⟩
  cases h : ranked.operand "users" "age" .ore (.integer (-32768)) with
  | ok out =>
    obtain ⟨hdecode, hout⟩ := (hleast out).1 h
    exact ⟨out, rfl, hout ▸ hdecode⟩
  | error e =>
    rcases (hrefused e).1 h with ⟨hk, _⟩ | ⟨_, n, hn, he, _⟩
    · exact absurd rfl hk
    · cases hn
      rcases he with he | he
      · exact absurd he (by decide)
      · exact absurd he (by decide)

end Registry

end EncryptedColumns
