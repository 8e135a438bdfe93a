import EncryptedColumns.Json.Target
import EncryptedColumns.Proofs.FloatText
import EncryptedColumns.Proofs.SequenceText

/-!
# Values are read back

The compact text of a value is read as the value: no deeper than the levels that
are left, with no key twice in an object, and with floats that are read back
themselves. The order of fields is kept.
-/

namespace EncryptedColumns.Json

/-! ## Induction on values -/

section
variable {P : Json → Prop} (null : P .null) (bool : ∀ b, P (.bool b)) (number : ∀ n, P (.number n))
  (string : ∀ s, P (.string s)) (array : ∀ items, (∀ j ∈ items, P j) → P (.array items))
  (object : ∀ fields : Object, (∀ f ∈ fields, P f.2) → P (.object fields))
include null bool number string array object

@[elab_as_elim]
theorem induct (j : Json) : P j :=
  @Json.rec P (fun items => ∀ i ∈ items, P i) (fun fields => ∀ f ∈ fields, P f.2) (fun f => P f.2)
    null bool number string array object
    (fun _ h => nomatch h) (fun _ _ h hs => List.forall_mem_cons.2 ⟨h, hs⟩)
    (fun _ h => nomatch h) (fun _ _ h hs => List.forall_mem_cons.2 ⟨h, hs⟩)
    (fun _ _ h => h) j

end

/-! ## Conditions on all of a value -/

mutual

/-- A condition on the value and on every value inside it. -/
def Every (p : Json → Prop) : Json → Prop
  | .array items => p (.array items) ∧ EveryItem p items
  | .object fields => p (.object fields) ∧ EveryField p fields
  | .null => p .null
  | .bool b => p (.bool b)
  | .number n => p (.number n)
  | .string s => p (.string s)

def EveryItem (p : Json → Prop) : List Json → Prop
  | [] => True
  | j :: js => j.Every p ∧ EveryItem p js

def EveryField (p : Json → Prop) : List (String × Json) → Prop
  | [] => True
  | (_, j) :: fs => j.Every p ∧ EveryField p fs

end

theorem everyItem_iff {p : Json → Prop} {items : List Json} :
    EveryItem p items ↔ ∀ j ∈ items, j.Every p := by
  induction items with
  | nil => simp [EveryItem]
  | cons j js ih => simp [EveryItem, ih]

theorem everyField_iff {p : Json → Prop} {fields : List (String × Json)} :
    EveryField p fields ↔ ∀ f ∈ fields, f.2.Every p := by
  induction fields with
  | nil => simp [EveryField]
  | cons f fs ih => simp [EveryField, ih]

theorem nestingOfItems_le_iff {items : List Json} {n : Nat} :
    nestingOfItems items ≤ n ↔ ∀ j ∈ items, j.nesting ≤ n := by
  induction items with
  | nil => simp [nestingOfItems]
  | cons j js ih => rw [nestingOfItems, Nat.max_le, ih, List.forall_mem_cons]

theorem nestingOfFields_le_iff {fields : List (String × Json)} {n : Nat} :
    nestingOfFields fields ≤ n ↔ ∀ f ∈ fields, f.2.nesting ≤ n := by
  induction fields with
  | nil => simp [nestingOfFields]
  | cons f fs ih => rw [nestingOfFields, Nat.max_le, ih, List.forall_mem_cons]

def KeysDistinct : Json → Prop :=
  Every fun
    | .object fields => (fields.map (·.1)).Nodup
    | _ => True

def FloatsReadBack : Json → Prop :=
  Every fun
    | .number (.float x) => x.IsReadBack
    | _ => True

theorem value_eq_level (n : Nat) : ∃ inner, value n = level inner := by
  cases n with
  | zero => exact ⟨_, rfl⟩
  | succ n => exact ⟨_, rfl⟩

theorem opens_value (n : Nat) : Opens (value n) := by
  intro bs x h
  obtain ⟨inner, hl⟩ := value_eq_level n
  rw [hl] at h
  obtain ⟨⟨l, b, rest⟩, hlead, -⟩ := bind_eq_ok.1 h
  unfold lead at hlead
  split at hlead
  · cases hlead
  · rename_i b' r hb
    split at hlead
    · rename_i l' hof
      refine ⟨b', r, hb, fun hc => ?_⟩
      rw [Lead.of?, hc] at hof
      cases hof
    · cases hlead

section
variable (inner : Option (Reader Json))

theorem reads_null : Reads (level inner) "null" .null := by
  intro rest _
  have hb : Bytes.ofString "null" = [0x6e, 0x75, 0x6c, 0x6c] := rfl
  rw [hb]
  rfl

theorem reads_bool (b : Bool) : Reads (level inner) (if b then "true" else "false") (.bool b) := by
  intro rest _
  have ht : Bytes.ofString "true" = [0x74, 0x72, 0x75, 0x65] := rfl
  have hf : Bytes.ofString "false" = [0x66, 0x61, 0x6c, 0x73, 0x65] := rfl
  cases b with
  | true => rw [if_pos rfl, ht]; rfl
  | false => rw [if_neg (by decide), hf]; rfl

theorem reads_string (s : String) : Reads (level inner) (literal s) (.string s) := by
  intro rest _
  obtain ⟨body, hbody, hc⟩ := ofString_literal s
  have hl : lead ('"'.toUInt8 :: (body ++ rest)) =
      .ok (.scalar .string, '"'.toUInt8, body ++ rest) := rfl
  rw [hbody, List.cons_append]
  refine bind_eq_ok.2 ⟨_, hl, ?_⟩
  simp only [Scalar.read, hc, bind, Except.bind]
  rfl

theorem reads_number {n : Number} (hn : n.IsReadBack) : Reads (level inner) n.text (.number n) :=
  fun _ hs => run_number hn inner hs

end

/-! ## Arrays and objects -/

theorem compactItems_eq_map (items : List Json) : compactItems items = items.map compact := by
  induction items with
  | nil => rfl
  | cons j js ih => rw [compactItems, ih]; rfl

theorem compactFields_eq_map (fields : List (String × Json)) :
    compactFields fields = (fields.map fun f => (f.1, f.2.compact)).map fieldText := by
  induction fields with
  | nil => rfl
  | cons f fs ih => rw [compactFields, ih]; rfl

theorem reads_array {n : Nat} {items : List Json} (h : ∀ j ∈ items, Reads (value n) j.compact j) :
    Reads (value (n + 1)) (Json.array items).compact (.array items) := by
  intro rest _
  have hb : Bytes.ofString (Json.array items).compact ++ rest = '['.toUInt8 ::
      (Bytes.ofString (separated (items.map compact)) ++ ']'.toUInt8 :: rest) := by
    have ho : Bytes.ofString "[" = ['['.toUInt8] := rfl
    have hc : Bytes.ofString "]" = [']'.toUInt8] := rfl
    rw [compact, Bytes.ofString_append, Bytes.ofString_append, ho, hc, compactItems_eq_map]
    simp only [List.append_assoc, List.cons_append, List.nil_append]
  have hl (bs : Bytes) : lead ('['.toUInt8 :: bs) = .ok (.array, '['.toUInt8, bs) := rfl
  rw [hb]
  refine bind_eq_ok.2 ⟨_, hl _, ?_⟩
  simp only [elements_read (opens_value n) compact items h rest, bind, Except.bind]
  rfl

theorem ofString_object (fields : Object) : Bytes.ofString (Json.object fields).compact =
    '{'.toUInt8 :: (Bytes.ofString (separated (compactFields fields)) ++ ['}'.toUInt8]) := by
  have ho : Bytes.ofString "\x7b" = ['{'.toUInt8] := rfl
  have hc : Bytes.ofString "\x7d" = ['}'.toUInt8] := rfl
  rw [compact, Bytes.ofString_append, Bytes.ofString_append, ho, hc]
  rfl

theorem members_compact {σ : Type} {step : FieldStep σ} {fields : Object} {s t : σ}
    (h : TakesAll step s (fields.map fun f => (f.1, f.2.compact)) t) (rest : Bytes) :
    ∃ body, Bytes.ofString (Json.object fields).compact = '{'.toUInt8 :: body ∧
      members step s (body ++ rest) = .ok (t, rest) := by
  refine ⟨_, ofString_object fields, ?_⟩
  rw [compactFields_eq_map, List.append_assoc]
  exact members_read h rest

theorem insert_of_not_mem {key : String} {o : Object} (h : key ∉ o.map (·.1)) (v : Json) :
    o.insert key v = o ++ [(key, v)] := by
  induction o with
  | nil => rfl
  | cons f o ih =>
    rw [List.map_cons, List.mem_cons, not_or] at h
    rw [Object.insert, if_neg (Ne.symm h.1), ih h.2]
    rfl

theorem takesAll_gather {r : Reader Json} : ∀ (fields o : Object),
    (∀ f ∈ fields, Reads r f.2.compact f.2) → ((o ++ fields).map (·.1)).Nodup →
      TakesAll (gather r) o (fields.map fun f => (f.1, f.2.compact)) (o ++ fields)
  | [], o, _, _ => (List.append_nil o).symm
  | f :: fs, o, h, hd => by
    have hnot : f.1 ∉ o.map (·.1) := by
      rw [List.map_append, List.nodup_append] at hd
      exact fun hm => hd.2.2 _ hm _ (List.mem_cons_self ..) rfl
    refine ⟨o.insert f.1 f.2, ⟨_, rfl, (h f (List.mem_cons_self ..)).map _⟩, ?_⟩
    rw [insert_of_not_mem hnot]
    have := takesAll_gather fs (o ++ [f]) (fun g hg => h g (List.mem_cons_of_mem _ hg))
    rw [List.append_assoc] at this
    exact this hd

theorem lead_brace (bs : Bytes) : lead ('{'.toUInt8 :: bs) = .ok (.object, '{'.toUInt8, bs) := rfl

theorem reads_object {n : Nat} {fields : Object} (h : ∀ f ∈ fields, Reads (value n) f.2.compact f.2)
    (hd : (fields.map (·.1)).Nodup) :
    Reads (value (n + 1)) (Json.object fields).compact (.object fields) := by
  intro rest _
  obtain ⟨body, hb, hm⟩ := members_compact (takesAll_gather fields [] h hd) rest
  rw [hb, List.cons_append]
  refine bind_eq_ok.2 ⟨_, lead_brace _, ?_⟩
  simp only [hm, bind, Except.bind]
  rfl

/-- **Values.** A value's compact text is read as the value by a reader with enough levels. -/
theorem reads_compact (j : Json) : ∀ n, j.nesting ≤ n → j.KeysDistinct → j.FloatsReadBack →
    Reads (value n) j.compact j := by
  -- a level of nesting takes up a level of the reader
  induction j using induct with
  | null =>
    intro n _ _ _
    obtain ⟨inner, hl⟩ := value_eq_level n
    rw [hl]
    exact reads_null inner
  | bool b =>
    intro n _ _ _
    obtain ⟨inner, hl⟩ := value_eq_level n
    rw [hl]
    exact reads_bool inner b
  | number m =>
    intro n _ _ hf
    obtain ⟨inner, hl⟩ := value_eq_level n
    rw [hl]
    refine reads_number inner ?_
    cases m with
    | whole k range => exact isReadBack_whole k range
    | float x => exact isReadBack_float hf
  | string s =>
    intro n _ _ _
    obtain ⟨inner, hl⟩ := value_eq_level n
    rw [hl]
    exact reads_string inner s
  | array items ih =>
    intro n hn hk hf
    cases n with
    | zero => cases hn
    | succ n =>
      have hn' := nestingOfItems_le_iff.1 (Nat.le_of_succ_le_succ hn)
      have hk' := everyItem_iff.1 hk.2
      have hf' := everyItem_iff.1 hf.2
      exact reads_array fun j hj => ih j hj n (hn' j hj) (hk' j hj) (hf' j hj)
  | object fields ih =>
    intro n hn hk hf
    cases n with
    | zero => cases hn
    | succ n =>
      have hn' := nestingOfFields_le_iff.1 (Nat.le_of_succ_le_succ hn)
      have hk' := everyField_iff.1 hk.2
      have hf' := everyField_iff.1 hf.2
      exact reads_object (fun f h => ih f h n (hn' f h) (hk' f h) (hf' f h)) hk.1

theorem parse_compact {j : Json} (hn : j.nesting ≤ nestingLimit) (hk : j.KeysDistinct)
    (hf : j.FloatsReadBack) : parse (Bytes.ofString j.compact) = .ok j :=
  (reads_compact j nestingLimit hn hk hf).readAll

theorem reads_fieldsOf {σ : Type} {step : FieldStep σ} {fields : Object} {s t : σ}
    (h : TakesAll step s (fields.map fun f => (f.1, f.2.compact)) t) :
    Reads (fieldsOf step s) (Json.object fields).compact t := by
  intro rest _
  obtain ⟨body, hb, hm⟩ := members_compact h rest
  rw [hb, List.cons_append]
  simp only [fieldsOf, lead_brace]
  exact hm

theorem reads_document {o : Object} {n : Nat} (hn : (Json.object o).nesting ≤ n)
    (hk : (Json.object o).KeysDistinct) (hf : (Json.object o).FloatsReadBack) :
    Reads (document n) (Json.object o).compact o := by
  cases n with
  | zero => cases hn
  | succ n =>
    have hn' := nestingOfFields_le_iff.1 (Nat.le_of_succ_le_succ hn)
    have hk' := everyField_iff.1 hk.2
    have hf' := everyField_iff.1 hf.2
    have hread (f : String × Json) (h : f ∈ o) : Reads (value n) f.2.compact f.2 :=
      reads_compact f.2 n (hn' f h) (hk' f h) (hf' f h)
    exact reads_fieldsOf (takesAll_gather o [] hread hk.1)

end EncryptedColumns.Json
