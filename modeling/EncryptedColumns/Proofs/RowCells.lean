import Mathlib.Data.List.Forall2
import EncryptedColumns.Proofs.Cells

/-!
# Rows are decoded cell by cell

What a cell is decoded to does not depend on the cells around it. So the parts of a row can be
decoded one after the other, every cell stays in its place, and a row that is refused is refused
for the first cell that would be refused alone.
-/

namespace EncryptedColumns

theorem forall₂_of_mapM {ε α β : Type} {f : α → Except ε β} {xs : List α} {ys : List β}
    (h : xs.mapM f = .ok ys) : List.Forall₂ (fun x y => f x = .ok y) xs ys := by
  induction xs generalizing ys with
  | nil =>
    cases h
    exact .nil
  | cons x xs ih =>
    rw [List.mapM_cons] at h
    obtain ⟨y, hy, h⟩ := bind_eq_ok.1 h
    obtain ⟨ys, hys, h⟩ := bind_eq_ok.1 h
    cases h
    exact .cons hy (ih hys)

namespace TableSpec

variable {specs : TableSpec}

theorem decodeField_eq_ok_iff {f g : String × Json} :
    specs.decodeField f = .ok g ↔ g.1 = f.1 ∧ specs.decodeCell f.1 f.2 = .ok g.2 := by
  unfold decodeField
  cases specs.decodeCell f.1 f.2 with
  | error e => simp [bind, Except.bind]
  | ok cell => simp [bind, Except.bind, pure, Except.pure, Prod.ext_iff, eq_comm]

theorem decodeField_eq_error_iff {f : String × Json} {e : Refusal} :
    specs.decodeField f = .error e ↔ specs.decodeCell f.1 f.2 = .error e := by
  unfold decodeField
  cases specs.decodeCell f.1 f.2 <;> simp [bind, Except.bind, pure, Except.pure]

theorem isOfPayload_of_decodeCell {column : String} {cell : Json} {e : Refusal}
    (h : specs.decodeCell column cell = .error e) : e.IsOfPayload := by
  cases hc : specs.find? column with
  | none =>
    rw [decodeCell_of_plain (.inr hc)] at h
    cases h
  | some spec =>
    cases hd : payload? cell with
    | some data =>
      rw [decodeCell_of_payload hc hd] at h
      cases hv : Payload.decodeAs data spec.kind with
      | error e' =>
        rw [hv] at h
        cases h
        exact Payload.isOfPayload_of_decodeAs hv
      | ok v => rw [hv] at h; cases h
    | none =>
      -- a cell that is no payload is null, or it is refused as it stands
      cases cell with
      | string | object => cases hd
      | null =>
        rw [decodeCell_of_plain (.inl rfl)] at h
        cases h
      | bool | number | array =>
        simp only [decodeCell, hc] at h
        cases h
        trivial

/-! ## Runs of cells -/

theorem decodeRow_append (r₁ r₂ : Object) :
    specs.decodeRow (r₁ ++ r₂) = do
      let out₁ ← specs.decodeRow r₁
      let out₂ ← specs.decodeRow r₂
      return out₁ ++ out₂ := by
  simp only [decodeRow_eq, List.mapM_append]

/-- Decodes a field into the object that holds those before it. -/
def decodeInto (specs : TableSpec) (out : Object) (f : String × Json) : Except Refusal Object := do
  return out.insert f.1 (← specs.decodeCell f.1 f.2)

theorem foldlM_decodeInto {row out : Object} (h : ((out ++ row).map (·.1)).Nodup) :
    row.foldlM specs.decodeInto out = row.foldlM specs.decodeNext out := by
  -- fields that have been decoded move to `out`, so their keys are not those to come
  induction row generalizing out with
  | nil => rfl
  | cons f row ih =>
    have hnot : f.1 ∉ out.map (·.1) := by
      rw [List.map_append, List.nodup_append] at h
      exact fun hm => h.2.2 _ hm _ (List.mem_cons_self ..) rfl
    have hkeys (cell : Json) : ((out ++ [(f.1, cell)] ++ row).map (·.1)).Nodup := by
      simpa using h
    rw [List.foldlM_cons, List.foldlM_cons, decodeInto, decodeNext]
    cases specs.decodeCell f.1 f.2 with
    | error e => rfl
    | ok cell =>
      simp only [bind, Except.bind, pure, Except.pure]
      rw [Json.insert_of_not_mem hnot, ih (hkeys cell)]

section
variable {row out : Object}

theorem forall₂_of_decodeRow (h : specs.decodeRow row = .ok out) :
    List.Forall₂ (fun f g => g.1 = f.1 ∧ specs.decodeCell f.1 f.2 = .ok g.2) row out := by
  rw [decodeRow_eq] at h
  exact (forall₂_of_mapM h).imp fun _ _ hf => decodeField_eq_ok_iff.1 hf

theorem keys_of_decodeRow (h : specs.decodeRow row = .ok out) : out.map (·.1) = row.map (·.1) := by
  have hfields := forall₂_of_decodeRow h
  clear h
  induction hfields with
  | nil => rfl
  | cons hf _ ih => rw [List.map_cons, List.map_cons, ih, hf.1]

theorem getElem?_of_decodeRow (h : specs.decodeRow row = .ok out) {i : Nat} {column : String} {cell : Json}
    (hi : row[i]? = some (column, cell)) (hplain : cell = .null ∨ specs.find? column = none) :
    out[i]? = some (column, cell) := by
  have hfields := forall₂_of_decodeRow h
  clear h
  induction hfields generalizing i with
  | nil => simp at hi
  | cons hf _ ih =>
    cases i with
    | succ i => exact ih hi
    | zero =>
      simp only [List.getElem?_cons_zero, Option.some.injEq] at hi
      subst hi
      obtain ⟨hkey, hcell⟩ := hf
      rw [decodeCell_of_plain hplain] at hcell
      rw [List.getElem?_cons_zero, Option.some.injEq]
      exact Prod.ext hkey (Except.ok.inj hcell).symm

theorem exists_decodeRow_field {f : String × Json} :
    (∃ out, specs.decodeRow [f] = .ok out) ↔ ∃ g, specs.decodeField f = .ok g := by
  rw [decodeRow_field]
  cases specs.decodeField f <;> simp [Except.map]

theorem decodeRow_field_eq_error_iff {f : String × Json} {e : Refusal} :
    specs.decodeRow [f] = .error e ↔ specs.decodeField f = .error e := by
  rw [decodeRow_field]
  cases specs.decodeField f <;> simp [Except.map]

theorem decodeRow_eq_error_iff {e : Refusal} :
    specs.decodeRow row = .error e ↔ ∃ before f after, row = before ++ f :: after ∧
      (∀ g ∈ before, ∃ out, specs.decodeRow [g] = .ok out) ∧ specs.decodeRow [f] = .error e := by
  simp only [exists_decodeRow_field, decodeRow_field_eq_error_iff]
  rw [decodeRow_eq]
  exact mapM_eq_error_iff

theorem exists_error_iff :
    (∃ e, specs.decodeRow row = .error e) ↔ ∃ f ∈ row, ∃ e, specs.decodeRow [f] = .error e := by
  constructor
  · rintro ⟨e, he⟩
    obtain ⟨before, f, after, rfl, _, hf⟩ := decodeRow_eq_error_iff.1 he
    exact ⟨f, by simp, e, hf⟩
  · rintro ⟨f, hf, e, he⟩
    obtain ⟨before, after, rfl⟩ := List.append_of_mem hf
    rw [← List.singleton_append, decodeRow_append, decodeRow_append, he]
    cases specs.decodeRow before with
    | error e' => exact ⟨e', rfl⟩
    | ok out => exact ⟨e, rfl⟩

theorem isOfPayload_of_decodeRow {e : Refusal} (h : specs.decodeRow row = .error e) : e.IsOfPayload := by
  obtain ⟨_, f, _, _, _, hf⟩ := decodeRow_eq_error_iff.1 h
  exact isOfPayload_of_decodeCell (decodeField_eq_error_iff.1 (decodeRow_field_eq_error_iff.1 hf))

end

/-- **Rows are decoded cell by cell.** Two rows, one behind the other, are decoded to what the first is
decoded to with what the second is decoded to behind it, unless one of them is refused, the first
before the second. To gather the cells in an object comes to the same, as long as no key comes twice.
The keys stay as they are, and so do null and the cells of other columns. A row is refused for the
first cell that is refused alone, if there is one, and always for what a payload is refused for. -/
theorem decodeRow_cellwise (specs : TableSpec) :
    (∀ r₁ r₂ : Object, specs.decodeRow (r₁ ++ r₂) =
      match specs.decodeRow r₁, specs.decodeRow r₂ with
      | .error e, _ => .error e
      | .ok _, .error e => .error e
      | .ok out₁, .ok out₂ => .ok (out₁ ++ out₂)) ∧
    (∀ row : Object, (row.map (·.1)).Nodup →
      row.foldlM specs.decodeInto [] = specs.decodeRow row) ∧
    (∀ row out, specs.decodeRow row = .ok out →
      out.map (·.1) = row.map (·.1) ∧
      ∀ (i : Nat) (column : String) (cell : Json), row[i]? = some (column, cell) →
        cell = .null ∨ specs.find? column = none → out[i]? = some (column, cell)) ∧
    (∀ row, (∃ e, specs.decodeRow row = .error e) ↔
      ∃ f ∈ row, ∃ e, specs.decodeRow [f] = .error e) ∧
    (∀ row e, specs.decodeRow row = .error e ↔ ∃ before f after, row = before ++ f :: after ∧
      (∀ g ∈ before, ∃ out, specs.decodeRow [g] = .ok out) ∧ specs.decodeRow [f] = .error e) ∧
    ∀ row e, specs.decodeRow row = .error e → e.IsOfPayload := by
  refine ⟨fun r₁ r₂ => ?_, fun row h => ?_,
    fun row out h => ⟨keys_of_decodeRow h, fun i column cell hi hplain => getElem?_of_decodeRow h hi hplain⟩,
    fun row => exists_error_iff, fun row e => decodeRow_eq_error_iff, fun row e => isOfPayload_of_decodeRow⟩
  · rw [decodeRow_append]
    cases specs.decodeRow r₁ with
    | error e => rfl
    | ok out₁ => cases specs.decodeRow r₂ <;> rfl
  · have hempty : (([] ++ row : Object).map (·.1)).Nodup := h
    exact foldlM_decodeInto hempty

def visits : TableSpec :=
  (NameMap.empty.insert "age" { cast := .int }).insert "seen" { cast := .boolean }

def visit : Object :=
  [("id", .array [.null]), ("seen", .string "\x7b\"p\":\"true\"\x7d"), ("age", .bool true), ("Age", .null)]

theorem decodeRow_cellwise_visit :
    (visit.map (·.1)).Nodup ∧
    visit.foldlM visits.decodeInto [] = .error (.malformedEnvelope (.rowHolds "age" (.bool true))) ∧
    ∃ out, visits.decodeRow (visit.take 2) = .ok out ∧ out.map (·.1) = ["id", "seen"] ∧
      out[0]? = some ("id", .array [.null]) := by
  obtain ⟨_, hgather, hkept, _, hfirst, _⟩ := decodeRow_cellwise visits
  have hnodup : (visit.map (·.1)).Nodup := by decide
  have hid : visits.decodeRow [("id", .array [.null])] = .ok [("id", .array [.null])] := rfl
  have hseen : visits.decodeRow [("seen", .string "\x7b\"p\":\"true\"\x7d")] = .ok [("seen", .bool true)] := by
    decide +kernel
  have hage : visits.decodeRow [("age", .bool true)] =
      .error (.malformedEnvelope (.rowHolds "age" (.bool true))) := rfl
  have hbefore : visits.decodeRow (visit.take 2) = .ok [("id", .array [.null]), ("seen", .bool true)] := by
    decide +kernel
  refine ⟨hnodup, ?_, _, hbefore, (hkept _ _ hbefore).1, (hkept _ _ hbefore).2 0 _ _ rfl (.inr rfl)⟩
  rw [hgather _ hnodup]
  refine (hfirst _ _).2 ⟨visit.take 2, ("age", .bool true), [("Age", .null)], rfl, ?_, hage⟩
  intro g hg
  simp only [visit, List.take_succ_cons, List.take_zero, List.mem_cons, List.not_mem_nil, or_false] at hg
  rcases hg with rfl | rfl
  · exact ⟨_, hid⟩
  · exact ⟨_, hseen⟩

end TableSpec

end EncryptedColumns
