import EncryptedColumns.Proofs.TypedColumns

/-!
# Operands and the cast

Outside `ste_vec` an operand is a value that its column holds, and so the cast is respected. Under
`ste_vec` an operand is a document or one of its terms, and the index alone decides. There the cast
is respected as long as only documents carry this index.
-/

namespace EncryptedColumns

structure ColumnSpec.Holds (spec : ColumnSpec) (value : PlainValue) : Prop where
  kind : value.kind = spec.kind
  range : ∀ n, value = .integer n → ¬ spec.cast.Excludes n

namespace Registry

/-- Paths lead into documents only, and no number is compared with that the cast does not hold. -/
structure RespectsCast (r : Registry) (table column : String) (spec : ColumnSpec) : Prop where
  path : ∀ path out, r.pathOperand table column path = .ok out → spec.kind = .document
  integer : ∀ mode n out, r.operand table column mode (.integer n) = .ok out → ¬ spec.cast.Excludes n

section
variable {r : Registry} {table column : String} {spec : ColumnSpec}
  (hspec : r.column table column = .ok spec)
include hspec

theorem requireIndex_eq_ok_iff {mode : QueryMode} {s : ColumnSpec} :
    r.requireIndex table column mode = .ok s ↔ spec.supports mode = true ∧ s = spec := by
  by_cases h : spec.supports mode = true
  · rw [requireIndex_of_supports hspec h, Except.ok.injEq]
    simp only [h, true_and, eq_comm]
  · have herror : r.requireIndex table column mode = .error (.indexNotConfigured table column mode) := by
      rw [requireIndex, hspec]
      exact if_neg h
    simp [herror, h]

theorem pathOperand_eq_ok_iff {path out : String} : r.pathOperand table column path = .ok out ↔
    spec.supports .steVec = true ∧ out = (Envelope.wrap path table column).write := by
  constructor
  · intro h
    obtain ⟨_, hs, _⟩ := bind_eq_ok.1 h
    exact ⟨((requireIndex_eq_ok_iff hspec).1 hs).1, eq_wrap_of_pathOperand h⟩
  · rintro ⟨h, rfl⟩
    exact bind_eq_ok.2 ⟨spec, (requireIndex_eq_ok_iff hspec).2 ⟨h, rfl⟩, rfl⟩

section
variable {mode : QueryMode} {value : PlainValue}

theorem operand_of_steVec (hindex : spec.supports .steVec = true) (value : PlainValue) :
    r.operand table column .steVec value = .ok (Envelope.wrap value.write table column).write := by
  rw [operand, requireIndex_of_supports hspec hindex]
  rfl

theorem operand_of_holds (hindex : spec.supports mode = true) (hmode : mode ≠ .steVec)
    (h : spec.Holds value) :
    r.operand table column mode value = .ok (Envelope.wrap value.write table column).write := by
  rw [operand_of_kind_eq hspec hindex hmode h.kind, ColumnSpec.checkRange_of_not_excludes h.range]
  rfl

theorem holds_of_operand {out : String} (hindex : spec.supports mode = true) (hmode : mode ≠ .steVec)
    (h : r.operand table column mode value = .ok out) : spec.Holds value := by
  by_cases hk : value.kind = spec.kind
  · refine ⟨hk, ?_⟩
    rintro n rfl he
    rw [operand_of_kind_eq hspec hindex hmode hk, ColumnSpec.checkRange_of_excludes he] at h
    cases h
  · rw [operand_of_kind_ne hspec hindex hmode hk] at h
    cases h

theorem operand_eq_wrap_iff {out : String} : r.operand table column mode value = .ok out ↔
    spec.supports mode = true ∧ (mode ≠ .steVec → spec.Holds value) ∧
      out = (Envelope.wrap value.write table column).write := by
  constructor
  · intro h
    obtain ⟨_, hs, _⟩ := bind_eq_ok.1 h
    have hindex := ((requireIndex_eq_ok_iff hspec).1 hs).1
    exact ⟨hindex, fun hmode => holds_of_operand hspec hindex hmode h, eq_wrap_of_operand h⟩
  · rintro ⟨hindex, hholds, rfl⟩
    by_cases hmode : mode = .steVec
    · subst hmode
      exact operand_of_steVec hspec hindex value
    · exact operand_of_holds hspec hindex hmode (hholds hmode)

end

theorem respectsCast_of_jsonb (h : spec.supports .steVec = true → spec.cast = .jsonb) :
    r.RespectsCast table column spec := by
  constructor
  · intro path out hout
    rw [ColumnSpec.kind, h ((pathOperand_eq_ok_iff hspec).1 hout).1]
    rfl
  · intro mode n out hout
    obtain ⟨hindex, hholds, _⟩ := (operand_eq_wrap_iff hspec).1 hout
    by_cases hmode : mode = .steVec
    · subst hmode
      rw [h hindex]
      exact id
    · exact (hholds hmode).range n rfl

/-- **The cast is respected outside `ste_vec`.** There a value is accepted exactly if the column has the
index and holds the value. Under `ste_vec` the index is enough for a value, and a path needs it. On
documents, and on columns without this index, nothing is accepted against the cast. -/
theorem operands_respect_cast :
    (∀ mode value out, r.operand table column mode value = .ok out ↔
      spec.supports mode = true ∧ (mode ≠ .steVec → spec.Holds value) ∧
        out = (Envelope.wrap value.write table column).write) ∧
    (∀ path out, r.pathOperand table column path = .ok out →
      spec.supports .steVec = true ∧ out = (Envelope.wrap path table column).write) ∧
    (spec.cast = .jsonb → ∀ path,
      (∃ out, r.pathOperand table column path = .ok out) ↔ spec.supports .steVec = true) ∧
    ((spec.supports .steVec = true → spec.cast = .jsonb) → r.RespectsCast table column spec) := by
  refine ⟨fun _ _ _ => operand_eq_wrap_iff hspec, fun _ _ => (pathOperand_eq_ok_iff hspec).1,
    fun _ path => ?_, respectsCast_of_jsonb hspec⟩
  constructor
  · rintro ⟨_, hout⟩
    exact ((pathOperand_eq_ok_iff hspec).1 hout).1
  · intro h
    exact ⟨_, (pathOperand_eq_ok_iff hspec).2 ⟨h, rfl⟩⟩

end

def noteCalls : List Addition := [
  ⟨"users", "age", { cast := .smallInt, indexes := { ore := some [] } }⟩,
  ⟨"users", "note", { cast := .jsonb, indexes := { steVec := some [] } }⟩]

theorem operands_respect_cast_notes :
    let r := addAll noteCalls .empty
    (∃ spec, r.column "users" "age" = .ok spec ∧ r.RespectsCast "users" "age" spec ∧
      (∃ out, r.operand "users" "age" .ore (.integer 7) = .ok out) ∧
      ∀ out, r.operand "users" "age" .ore (.integer 40000) ≠ .ok out) ∧
    ∃ spec, r.column "users" "note" = .ok spec ∧ r.RespectsCast "users" "note" spec ∧
      (∃ out, r.operand "users" "note" .steVec (.integer 40000) = .ok out) ∧
      ∃ out, r.pathOperand "users" "note" "$.a" = .ok out := by
  intro r
  have hage : r.column "users" "age" = .ok { cast := .smallInt, indexes := { ore := some [] } } := rfl
  have hnote : r.column "users" "note" = .ok { cast := .jsonb, indexes := { steVec := some [] } } := rfl
  obtain ⟨hoperand, _, _, hrespects⟩ := operands_respect_cast hage
  obtain ⟨hterm, _, hpath, hrespects'⟩ := operands_respect_cast hnote
  have hseven : ∃ out, r.operand "users" "age" .ore (.integer 7) = .ok out := by
    refine ⟨_, (hoperand _ _ _).2 ⟨rfl, fun _ => ⟨rfl, fun n hn => ?_⟩, rfl⟩⟩
    cases hn
    exact Cast.holds_iff.1 (by decide)
  have hlarge : ∀ out, r.operand "users" "age" .ore (.integer 40000) ≠ .ok out := by
    intro out hout
    obtain ⟨_, hholds, _⟩ := (hoperand _ _ _).1 hout
    exact (hholds (by decide)).range 40000 rfl (.inr (by decide))
  have hnumber : ∃ out, r.operand "users" "note" .steVec (.integer 40000) = .ok out :=
    ⟨_, (hterm _ _ _).2 ⟨rfl, fun hmode => absurd rfl hmode, rfl⟩⟩
  exact ⟨⟨_, hage, hrespects (by decide), hseven, hlarge⟩,
    _, hnote, hrespects' fun _ => rfl, hnumber, (hpath rfl "$.a").2 rfl⟩

def termCalls : List Addition :=
  [⟨"users", "age", { cast := .smallInt, indexes := { steVec := some [] } }⟩]

theorem accepted_against_cast :
    let r := addAll termCalls .empty
    ∃ spec, r.column "users" "age" = .ok spec ∧ ¬ r.RespectsCast "users" "age" spec ∧
      (∃ out, r.pathOperand "users" "age" "$.a" = .ok out ∧ spec.kind ≠ .document) ∧
      ∃ out, r.operand "users" "age" .steVec (.integer 40000) = .ok out ∧ spec.cast.Excludes 40000 := by
  intro r
  have hspec : r.column "users" "age" = .ok { cast := .smallInt, indexes := { steVec := some [] } } := rfl
  have hpath : r.pathOperand "users" "age" "$.a" =
      .ok (Envelope.wrap "$.a" "users" "age").write := rfl
  have hterm : r.operand "users" "age" .steVec (.integer 40000) =
      .ok (Envelope.wrap (Integer.write 40000) "users" "age").write := rfl
  have hexcluded : Cast.smallInt.Excludes 40000 := .inr (by decide)
  refine ⟨_, hspec, fun h => ?_, ⟨_, hpath, by decide⟩, _, hterm, hexcluded⟩
  exact h.integer _ _ _ hterm hexcluded

end Registry

end EncryptedColumns
