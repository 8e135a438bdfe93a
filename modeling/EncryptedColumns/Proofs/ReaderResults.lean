import EncryptedColumns.Json.Record
import EncryptedColumns.Proofs.Columns
import EncryptedColumns.Proofs.Objects
import EncryptedColumns.Proofs.ValueText

/-!
# What readers give

A property that every step of a reader keeps holds of whatever the reader gives, however
the text is written. So a value that has been read nests no deeper than the reader allows
and has no key twice in an object.
-/

namespace EncryptedColumns.Json

/-- Whatever the reader gives has the property. -/
def Ensures {α : Type} (r : Reader α) (P : α → Prop) : Prop :=
  ∀ bs a rest, r.run bs = .ok (a, rest) → P a

namespace Ensures

variable {α β : Type} {r : Reader α} {P : α → Prop}

theorem anything (r : Reader α) : Ensures r fun _ => True :=
  fun _ _ _ _ => trivial

theorem map {Q : β → Prop} {f : α → β} (h : Ensures r P) (hf : ∀ a, P a → Q (f a)) :
    Ensures (r.map f) Q := by
  intro bs b rest hr
  obtain ⟨⟨a, rest'⟩, hrun, hr⟩ := bind_eq_ok.1 hr
  cases hr
  exact hf a (h bs a rest hrun)

theorem of_readAll (h : Ensures r P) {bs : Bytes} {a : α} (hr : r.readAll bs = .ok a) : P a := by
  obtain ⟨rest, hrun, _⟩ := eq_nil_of_readAll hr
  exact h bs a rest hrun

end Ensures

/-! ## Lists -/

section
variable {α : Type} {item : Reader α} {P : α → Prop} (hitem : Ensures item P)
include hitem

theorem forall_of_elementsFrom {bs rest : Bytes} {as : List α}
    (h : elementsFrom item bs = .ok (as, rest)) : ∀ a ∈ as, P a := by
  fun_induction elementsFrom item bs generalizing as with
  | case1 => cases h
  | case2 => cases h
  | case3 bs a r hi r' ha =>
    cases h
    exact List.forall_mem_singleton.2 (hitem bs a r hi)
  | case4 bs a r hi left ha h₁ h₂ ih =>
    obtain ⟨p, hl, h⟩ := map_eq_ok.1 h
    cases h
    exact List.forall_mem_cons.2 ⟨hitem bs a r hi, ih hl⟩

theorem forall_of_elements {bs rest : Bytes} {as : List α} (h : elements item bs = .ok (as, rest)) :
    ∀ a ∈ as, P a := by
  unfold elements at h
  cases hb : skipBlanks bs with
  | nil => rw [hb] at h; cases h
  | cons b r =>
    simp only [hb] at h
    by_cases hc : Char.ofUInt8 b = ']'
    · rw [if_pos hc] at h
      cases h
      exact List.forall_mem_nil P
    · rw [if_neg hc] at h
      exact forall_of_elementsFrom hitem h

end

/-! ## Fields -/

def Keeps {σ : Type} (step : FieldStep σ) (P : σ → Prop) : Prop :=
  ∀ s key r, P s → step s key = .ok r → Ensures r P

section
variable {σ : Type} {step : FieldStep σ} {P : σ → Prop} (hstep : Keeps step P)
include hstep

theorem Keeps.of_field {s t : σ} {bs rest : Bytes} (h : field step s bs = .ok (t, rest)) (hs : P s) :
    P t := by
  obtain ⟨⟨key, r⟩, _, h⟩ := bind_eq_ok.1 h
  obtain ⟨value, hvalue, h⟩ := bind_eq_ok.1 h
  obtain ⟨r', _, h⟩ := bind_eq_ok.1 h
  exact hstep s key value hs hvalue r' t rest h

theorem Keeps.of_membersFrom {s t : σ} {bs rest : Bytes}
    (h : membersFrom step s bs = .ok (t, rest)) (hs : P s) : P t := by
  fun_induction membersFrom step s bs with
  | case1 => cases h
  | case2 => cases h
  | case3 s bs s' r hf r' ha =>
    cases h
    exact hstep.of_field hf hs
  | case4 s bs s' r hf left ha h₁ h₂ ih => exact ih h (hstep.of_field hf hs)

theorem Keeps.of_members {s t : σ} {bs rest : Bytes} (h : members step s bs = .ok (t, rest))
    (hs : P s) : P t := by
  unfold members at h
  split at h
  · cases h
  · split at h
    · cases h; exact hs
    · exact hstep.of_membersFrom h hs
    · cases h

theorem ensures_fieldsOf {s : σ} (hs : P s) : Ensures (fieldsOf step s) P := by
  intro bs t rest h
  simp only [fieldsOf] at h
  split at h
  · exact hstep.of_members h hs
  · cases h

end

theorem keeps_gather {value : Reader Json} {P : Json → Prop} (h : Ensures value P) :
    Keeps (gather value) (fun o => (o.map (·.1)).Nodup ∧ ∀ f ∈ o, P f.2) := by
  intro o key r ho hr
  cases hr
  refine h.map fun v hv => ⟨Object.nodup_insert ho.1 key v, fun f hf => ?_⟩
  rcases Object.mem_insert hf with rfl | hf
  · exact hv
  · exact ho.2 f hf

theorem ensures_mapOf {α : Type} {item : Reader α} {P : α → Prop} (h : Ensures item P) :
    Ensures (mapOf item) (fun m => ∀ e ∈ m.entries, P e.2) := by
  refine ensures_fieldsOf ?_ (List.forall_mem_nil _)
  intro m name r hm hr
  cases hr
  refine h.map fun a ha e he => ?_
  rcases NameMap.mem_insertEntry he with rfl | he
  · exact ha
  · exact hm e he

theorem ensures_optional {α : Type} {r : Reader α} {P : α → Prop} (h : Ensures r P) :
    Ensures (optional r) (fun o => ∀ a ∈ o, P a) := by
  intro bs o rest hr
  simp only [optional] at hr
  split at hr
  · obtain ⟨_, _, hr⟩ := bind_eq_ok.1 hr
    cases hr
    exact fun a ha => nomatch ha
  · have hmap : Ensures (r.map some) (fun o => ∀ a ∈ o, P a) := by
      refine h.map fun a ha b hb => ?_
      cases hb
      exact ha
    exact hmap _ o rest hr

/-! ## Records -/

def Field.Keeps {σ : Type} (f : Field σ) (P : σ → Prop) : Prop :=
  Ensures f.read fun update => ∀ s, P s → P (update s)

theorem Field.keeps_map {σ α : Type} {name : String} {isSet : σ → Bool} {r : Reader α}
    {update : α → σ → σ} {P : σ → Prop} {Q : α → Prop} (h : Ensures r Q)
    (hu : ∀ a, Q a → ∀ s, P s → P (update a s)) : Field.Keeps ⟨name, isSet, r.map update⟩ P :=
  h.map hu

namespace Layout

variable {σ α : Type} {layout : Layout σ α} {P : σ → Prop}

theorem keeps_step (hf : ∀ f ∈ layout.fields, f.Keeps P) : Keeps layout.step P := by
  intro s key r hs hr
  unfold step at hr
  split at hr
  · cases hr
    exact (Ensures.anything skip).map fun _ _ => hs
  · rename_i f hfind
    split at hr
    · cases hr
    · cases hr
      exact (hf f (List.mem_of_find?_eq_some hfind)).map fun update hu => hu s hs

theorem of_slots {fs : List (Field σ)} (hf : ∀ f ∈ fs, f.Keeps P) {first : Bool} {s t : σ}
    {bs rest : Bytes} (h : slots fs first s bs = .ok (t, rest)) (hs : P s) : P t := by
  induction fs generalizing first s bs with
  | nil =>
    obtain ⟨r, _, h⟩ := bind_eq_ok.1 h
    cases h
    exact hs
  | cons f fs ih =>
    obtain ⟨hread, hfs⟩ := List.forall_mem_cons.1 hf
    obtain ⟨⟨more, r⟩, _, h⟩ := bind_eq_ok.1 h
    cases more with
    | false => cases h; exact hs
    | true =>
      obtain ⟨⟨update, r'⟩, hr, h⟩ := bind_eq_ok.1 h
      exact ih hfs h (hread r update r' hr s hs)

/-- **Records.** What each field keeps and a completed draft passes on holds of the record, in both
of the forms it may be written in. -/
theorem ensures_reader {Q : α → Prop} {blank : σ} (hblank : P blank)
    (hf : ∀ f ∈ layout.fields, f.Keeps P)
    (hc : ∀ missing s a, P s → layout.complete missing s = .ok a → Q a) :
    Ensures (layout.reader blank) Q := by
  intro bs a rest h
  simp only [reader] at h
  split at h
  · obtain ⟨⟨s, r⟩, hm, h⟩ := bind_eq_ok.1 h
    obtain ⟨a', ha, h⟩ := bind_eq_ok.1 h
    cases h
    exact hc _ s a ((keeps_step hf).of_members hm hblank) ha
  · obtain ⟨⟨s, r⟩, hm, h⟩ := bind_eq_ok.1 h
    obtain ⟨a', ha, h⟩ := bind_eq_ok.1 h
    cases h
    exact hc _ s a (of_slots hf hm hblank) ha
  · cases h

end Layout

/-! ## Values -/

structure IsReadable (levels : Nat) (j : Json) : Prop where
  nesting : j.nesting ≤ levels
  keys : j.KeysDistinct

theorem isReadable_of_read {s : Scalar} {b : UInt8} {rest left : Bytes} {j : Json}
    (h : s.read b rest = .ok (j, left)) (n : Nat) : j.IsReadable n := by
  cases s with
  | null | yes | no =>
    obtain ⟨r, _, h⟩ := bind_eq_ok.1 h
    cases h
    exact ⟨Nat.zero_le n, trivial⟩
  | number =>
    obtain ⟨⟨m, r⟩, _, h⟩ := bind_eq_ok.1 h
    obtain ⟨v, _, h⟩ := bind_eq_ok.1 h
    cases h
    cases v <;> exact ⟨Nat.zero_le n, trivial⟩
  | string =>
    obtain ⟨⟨s, r⟩, _, h⟩ := bind_eq_ok.1 h
    cases h
    exact ⟨Nat.zero_le n, trivial⟩

theorem isReadable_array {items : List Json} {n : Nat} (h : ∀ j ∈ items, j.IsReadable n) :
    (Json.array items).IsReadable (n + 1) where
  nesting := Nat.succ_le_succ (nestingOfItems_le_iff.2 fun j hj => (h j hj).nesting)
  keys := ⟨trivial, everyItem_iff.2 fun j hj => (h j hj).keys⟩

theorem isReadable_object {fields : Object} {n : Nat} (hd : (fields.map (·.1)).Nodup)
    (h : ∀ f ∈ fields, f.2.IsReadable n) : (Json.object fields).IsReadable (n + 1) where
  nesting := Nat.succ_le_succ (nestingOfFields_le_iff.2 fun f hf => (h f hf).nesting)
  keys := ⟨hd, everyField_iff.2 fun f hf => (h f hf).keys⟩

theorem isReadable_of_members {r : Reader Json} {n : Nat} (hr : Ensures r (IsReadable n))
    {bs rest : Bytes} {fields : Object} (h : members (gather r) [] bs = .ok (fields, rest)) :
    (Json.object fields).IsReadable (n + 1) := by
  have hempty : (([] : Object).map (·.1)).Nodup ∧ ∀ f ∈ ([] : Object), f.2.IsReadable n :=
    ⟨List.nodup_nil, List.forall_mem_nil _⟩
  obtain ⟨hd, hread⟩ := (keeps_gather hr).of_members h hempty
  exact isReadable_object hd hread

theorem level_cases {inner : Option (Reader Json)} {bs rest : Bytes} {j : Json}
    (h : (level inner).run bs = .ok (j, rest)) :
    (∃ s b r, lead bs = .ok (.scalar s, b, r) ∧ s.read b r = .ok (j, rest)) ∨
    (∃ item b r items, inner = some item ∧ lead bs = .ok (.array, b, r) ∧
      elements item r = .ok (items, rest) ∧ j = .array items) ∨
    ∃ value b r fields, inner = some value ∧ lead bs = .ok (.object, b, r) ∧
      members (gather value) [] r = .ok (fields, rest) ∧ j = .object fields := by
  obtain ⟨⟨l, b, r⟩, hl, h⟩ := bind_eq_ok.1 h
  cases l with
  | scalar s => exact .inl ⟨s, b, r, hl, h⟩
  | array =>
    cases inner with
    | none => cases h
    | some item =>
      obtain ⟨⟨items, r'⟩, hitems, h⟩ := bind_eq_ok.1 h
      cases h
      exact .inr (.inl ⟨item, b, r, items, rfl, hl, hitems, rfl⟩)
  | object =>
    cases inner with
    | none => cases h
    | some value =>
      obtain ⟨⟨fields, r'⟩, hfields, h⟩ := bind_eq_ok.1 h
      cases h
      exact .inr (.inr ⟨value, b, r, fields, rfl, hl, hfields, rfl⟩)

/-- **Values.** What is read with so many levels nests no deeper, and has distinct keys. -/
theorem ensures_value (n : Nat) : Ensures (value n) (IsReadable n) := by
  -- the values inside are read with one level less
  induction n with
  | zero =>
    intro bs j rest h
    rcases level_cases h with ⟨s, b, r, _, hs⟩ | ⟨item, b, r, items, hnone, _⟩ |
      ⟨value, b, r, fields, hnone, _⟩
    · exact isReadable_of_read hs 0
    · cases hnone
    · cases hnone
  | succ n ih =>
    intro bs j rest h
    rcases level_cases h with ⟨s, b, r, _, hs⟩ | ⟨item, b, r, items, hitem, _, hitems, rfl⟩ |
      ⟨value, b, r, fields, hvalue, _, hfields, rfl⟩
    · exact isReadable_of_read hs (n + 1)
    · cases hitem
      exact isReadable_array (forall_of_elements ih hitems)
    · cases hvalue
      exact isReadable_of_members ih hfields

theorem ensures_document (n : Nat) : Ensures (document n) (fun o => (Json.object o).IsReadable n) := by
  cases n with
  | zero => intro bs o rest h; cases h
  | succ n =>
    intro bs o rest h
    simp only [document, fieldsOf] at h
    split at h
    · exact isReadable_of_members (ensures_value n) h
    · cases h

end EncryptedColumns.Json
