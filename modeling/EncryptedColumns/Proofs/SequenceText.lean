import EncryptedColumns.Proofs.NumberText
import EncryptedColumns.Proofs.StringText

/-!
# Lists and fields are read back

If each element of a list is read back in front of what may follow it, so is the
list, and likewise the fields of an object. How an element is read, or what a field
does to what has been gathered so far, is left open.
-/

namespace EncryptedColumns.Json

/-- The text is read as the value, up to where it ends, in front of anything that could not
be part of a number at its end. -/
def Reads {α : Type} (r : Reader α) (text : String) (a : α) : Prop :=
  ∀ rest, Stops rest → r.run (Bytes.ofString text ++ rest) = .ok (a, rest)

theorem Reads.map {α β : Type} {r : Reader α} {text : String} {a : α} (h : Reads r text a)
    (f : α → β) : Reads (r.map f) text (f a) := by
  intro rest hs
  exact bind_eq_ok.2 ⟨(a, rest), h rest hs, rfl⟩

theorem Reads.readAll {α : Type} {r : Reader α} {text : String} {a : α} (h : Reads r text a) :
    r.readAll (Bytes.ofString text) = .ok a := by
  have := h [] stops_nil
  rw [List.append_nil] at this
  exact bind_eq_ok.2 ⟨(a, []), this, rfl⟩

theorem skipBlanks_cons {b : UInt8} (h : isBlank b = false) (bs : Bytes) :
    skipBlanks (b :: bs) = b :: bs := by
  simp [skipBlanks, h]

theorem stops_comma (bs : Bytes) : Stops (','.toUInt8 :: bs) := by
  intro b h
  cases h
  decide

theorem stops_bracket (bs : Bytes) : Stops (']'.toUInt8 :: bs) := by
  intro b h
  cases h
  decide

theorem stops_brace (bs : Bytes) : Stops ('}'.toUInt8 :: bs) := by
  intro b h
  cases h
  decide

theorem afterElement_end (bs : Bytes) : afterElement (']'.toUInt8 :: bs) = .ok (false, bs) := rfl

theorem afterElement_comma {b : UInt8} {bs r : Bytes} (h : skipBlanks bs = b :: r)
    (hb : Char.ofUInt8 b ≠ ']') : afterElement (','.toUInt8 :: bs) = .ok (true, bs) := by
  have hc : skipBlanks (','.toUInt8 :: bs) = ','.toUInt8 :: bs := skipBlanks_cons (by decide) bs
  rw [afterElement, hc]
  have : Char.ofUInt8 ','.toUInt8 = ',' := by decide
  simp only [this, h, if_neg hb]

theorem ofString_separated_cons (s t : String) (ss : List String) :
    Bytes.ofString (separated (s :: t :: ss)) =
      Bytes.ofString s ++ ','.toUInt8 :: Bytes.ofString (separated (t :: ss)) := by
  have hc : Bytes.ofString "," = [','.toUInt8] := rfl
  rw [separated, Bytes.ofString_append, Bytes.ofString_append, hc, List.append_assoc]
  · rfl
  · simp

/-! ## Lists -/

theorem elementsFrom_last {α : Type} {item : Reader α} {bs r rest : Bytes} {a : α}
    (hi : item.run bs = .ok (a, r)) (ha : afterElement r = .ok (false, rest)) :
    elementsFrom item bs = .ok ([a], rest) := by
  rw [elementsFrom_eq]
  exact bind_eq_ok.2 ⟨_, hi, bind_eq_ok.2 ⟨_, ha, rfl⟩⟩

theorem elementsFrom_more {α : Type} {item : Reader α} {bs r left rest : Bytes} {a : α} {as : List α}
    (hi : item.run bs = .ok (a, r)) (ha : afterElement r = .ok (true, left))
    (hl : elementsFrom item left = .ok (as, rest)) :
    elementsFrom item bs = .ok (a :: as, rest) := by
  rw [elementsFrom_eq]
  exact bind_eq_ok.2 ⟨_, hi, bind_eq_ok.2 ⟨_, ha, map_eq_ok.2 ⟨_, hl, rfl⟩⟩⟩

def Opens {α : Type} (item : Reader α) : Prop :=
  ∀ bs x, item.run bs = .ok x → ∃ b r, skipBlanks bs = b :: r ∧ Char.ofUInt8 b ≠ ']'

section
variable {α : Type} {item : Reader α} (ho : Opens item) (text : α → String)
include ho

theorem elementsFrom_read (rest : Bytes) : ∀ (a : α) (as : List α),
    (∀ b ∈ a :: as, Reads item (text b) b) →
      elementsFrom item (Bytes.ofString (separated ((a :: as).map text)) ++ ']'.toUInt8 :: rest) =
        .ok (a :: as, rest)
  | a, [], h =>
    elementsFrom_last (h a (List.mem_cons_self ..) _ (stops_bracket rest)) (afterElement_end rest)
  | a, b :: as, h => by
    -- the rest is accepted, so it does not start with a bracket, and the comma is no last one
    have hmore := elementsFrom_read rest b as fun c hc => h c (List.mem_cons_of_mem _ hc)
    have hrun := h a (List.mem_cons_self ..) _
      (stops_comma (Bytes.ofString (separated ((b :: as).map text)) ++ ']'.toUInt8 :: rest))
    have hopen : ∃ c r, skipBlanks (Bytes.ofString (separated ((b :: as).map text)) ++
        ']'.toUInt8 :: rest) = c :: r ∧ Char.ofUInt8 c ≠ ']' := by
      obtain ⟨_, _, hi, _⟩ := elementsFrom_cases hmore
      exact ho _ _ hi
    obtain ⟨c, r, hc, hne⟩ := hopen
    rw [List.map_cons, List.map_cons, ofString_separated_cons, List.append_assoc, List.cons_append]
    exact elementsFrom_more hrun (afterElement_comma hc hne) hmore

theorem elements_read (as : List α) (h : ∀ a ∈ as, Reads item (text a) a) (rest : Bytes) :
    elements item (Bytes.ofString (separated (as.map text)) ++ ']'.toUInt8 :: rest) = .ok (as, rest) := by
  cases as with
  | nil => rfl
  | cons a as =>
    have hfrom := elementsFrom_read ho text rest a as h
    obtain ⟨_, _, hi, _⟩ := elementsFrom_cases hfrom
    obtain ⟨c, r, hc, hne⟩ := ho _ _ hi
    rw [elements, hc]
    simp only [if_neg hne]
    exact hfrom

end

/-! ## Fields -/

def fieldText (f : String × String) : String :=
  literal f.1 ++ ":" ++ f.2

/-- The field is taken in: its key is accepted, and its text read as the new state. -/
def Takes {σ : Type} (step : FieldStep σ) (s : σ) (f : String × String) (t : σ) : Prop :=
  ∃ r, step s f.1 = .ok r ∧ Reads r f.2 t

def TakesAll {σ : Type} (step : FieldStep σ) : σ → List (String × String) → σ → Prop
  | s, [], t => s = t
  | s, f :: fs, t => ∃ u, Takes step s f u ∧ TakesAll step u fs t

section
variable {σ : Type} {step : FieldStep σ}

theorem field_read {s t : σ} {f : String × String} (h : Takes step s f t) {rest : Bytes}
    (hs : Stops rest) : ∃ body, Bytes.ofString (fieldText f) = '"'.toUInt8 :: body ∧
      field step s (body ++ rest) = .ok (t, rest) := by
  obtain ⟨key, text⟩ := f
  obtain ⟨r, hr, ht⟩ := h
  obtain ⟨body, hbody, hc⟩ := ofString_literal key
  refine ⟨body ++ ':'.toUInt8 :: Bytes.ofString text, ?_, ?_⟩
  · have hcolon : Bytes.ofString ":" = [':'.toUInt8] := rfl
    rw [fieldText, Bytes.ofString_append, Bytes.ofString_append, hbody, hcolon, List.append_assoc]
    rfl
  · rw [List.append_assoc, field, hc]
    have hcolon : colon (':'.toUInt8 :: (Bytes.ofString text ++ rest)) = .ok (Bytes.ofString text ++ rest) :=
      rfl
    simp only [bind, Except.bind, List.cons_append, hr, hcolon]
    exact ht rest hs

theorem membersFrom_last {s t : σ} {bs r rest : Bytes} (hf : field step s bs = .ok (t, r))
    (ha : afterField r = .ok (false, rest)) : membersFrom step s bs = .ok (t, rest) := by
  rw [membersFrom_eq]
  exact bind_eq_ok.2 ⟨_, hf, bind_eq_ok.2 ⟨_, ha, rfl⟩⟩

theorem membersFrom_more {s t : σ} {bs r left : Bytes} (hf : field step s bs = .ok (t, r))
    (ha : afterField r = .ok (true, left)) : membersFrom step s bs = membersFrom step t left := by
  rw [membersFrom_eq, hf]
  simp only [bind, Except.bind, ha, if_true]

theorem afterField_end (bs : Bytes) : afterField ('}'.toUInt8 :: bs) = .ok (false, bs) := rfl

theorem afterField_comma (bs : Bytes) :
    afterField (','.toUInt8 :: '"'.toUInt8 :: bs) = .ok (true, bs) := rfl

theorem membersFrom_read (rest : Bytes) : ∀ (f : String × String) (fs : List (String × String)) (s t : σ),
    TakesAll step s (f :: fs) t →
      ∃ body, Bytes.ofString (separated ((f :: fs).map fieldText)) = '"'.toUInt8 :: body ∧
        membersFrom step s (body ++ '}'.toUInt8 :: rest) = .ok (t, rest)
  | f, [], s, t, ⟨u, hu, htu⟩ => by
    cases htu
    obtain ⟨body, hbody, hf⟩ := field_read hu (stops_brace rest)
    exact ⟨body, hbody, membersFrom_last hf (afterField_end rest)⟩
  | f, g :: fs, s, t, ⟨u, hu, htu⟩ => by
    obtain ⟨more, hmore, hm⟩ := membersFrom_read rest g fs u t htu
    obtain ⟨body, hbody, hf⟩ :=
      field_read hu (stops_comma ('"'.toUInt8 :: (more ++ '}'.toUInt8 :: rest)))
    refine ⟨body ++ ','.toUInt8 :: '"'.toUInt8 :: more, ?_, ?_⟩
    · rw [List.map_cons, List.map_cons, ofString_separated_cons, hbody, ← List.map_cons, hmore]
      rfl
    · rw [List.append_assoc]
      exact (membersFrom_more hf (afterField_comma _)).trans hm

/-- **Fields.** Fields that are taken in one by one are read up to the closing brace. -/
theorem members_read {s t : σ} {fs : List (String × String)} (h : TakesAll step s fs t) (rest : Bytes) :
    members step s (Bytes.ofString (separated (fs.map fieldText)) ++ '}'.toUInt8 :: rest) =
      .ok (t, rest) := by
  cases fs with
  | nil => cases h; rfl
  | cons f fs =>
    obtain ⟨body, hbody, hm⟩ := membersFrom_read rest f fs s t h
    rw [hbody]
    exact hm

end

end EncryptedColumns.Json
