import Mathlib.Data.List.TakeDrop
import EncryptedColumns.Identifier

/-!
# The shape of identifiers

A table name is one plain identifier, or two with a dot between them, and a plain
identifier has none of the characters that mean something to SQL.
-/

namespace EncryptedColumns

theorem eq_of_append_cons_eq {α : Type} {a : α} {x y x' y' : List α} (hx : a ∉ x) (hx' : a ∉ x')
    (h : x ++ a :: y = x' ++ a :: y') : x = x' ∧ y = y' := by
  induction x generalizing x' with
  | nil =>
    cases x' with
    | nil => exact ⟨rfl, (List.cons.inj h).2⟩
    | cons b x' =>
      rw [(List.cons.inj h).1] at hx'
      exact absurd (List.mem_cons_self ..) hx'
  | cons b x ih =>
    cases x' with
    | nil =>
      rw [(List.cons.inj h).1] at hx
      exact absurd (List.mem_cons_self ..) hx
    | cons b' x' =>
      obtain ⟨rfl, hrest⟩ := List.cons.inj h
      obtain ⟨rfl, rfl⟩ := ih (mt (List.mem_cons_of_mem _) hx) (mt (List.mem_cons_of_mem _) hx') hrest
      exact ⟨rfl, rfl⟩

namespace Identifier

theorem isSubsequent_of_isInitial {c : Char} (h : isInitial c = true) : isSubsequent c = true := by
  simp only [isInitial, isSubsequent, Char.isAlphanum, Bool.or_eq_true] at h ⊢
  rcases h with h | h
  · exact .inl (.inl (.inl h))
  · exact .inl (.inr h)

theorem isSubsequent_of_mem {cs : List Char} (h : isPlain cs = true) {c : Char} (hc : c ∈ cs) :
    isSubsequent c = true := by
  cases cs with
  | nil => cases hc
  | cons d cs =>
    simp only [isPlain, Bool.and_eq_true, List.all_eq_true] at h
    rcases List.mem_cons.1 hc with rfl | hc
    · exact isSubsequent_of_isInitial h.1
    · exact h.2 c hc

theorem isTable_cases {name : String} (h : isTable name = true) :
    isPlain name.toList = true ∨
      ∃ a b, name.toList = a ++ '.' :: b ∧ isPlain a = true ∧ isPlain b = true := by
  rw [isTable, List.span_eq_takeWhile_dropWhile] at h
  have hsplit := List.takeWhile_append_dropWhile (p := (· != '.')) (l := name.toList)
  cases hd : name.toList.dropWhile (· != '.') with
  | nil =>
    rw [hd] at h hsplit
    rw [List.append_nil] at hsplit
    exact .inl (hsplit ▸ h)
  | cons c cs =>
    rw [hd] at h hsplit
    have hc : c = '.' := by
      have := List.head?_dropWhile_not (· != '.') name.toList
      rw [hd] at this
      simpa using this
    simp only [Bool.and_eq_true] at h
    exact .inr ⟨_, cs, (hc ▸ hsplit).symm, h.1, h.2⟩

theorem dot_not_mem {cs : List Char} (h : isPlain cs = true) : '.' ∉ cs := by
  intro hm
  exact absurd (isSubsequent_of_mem h hm) (by decide)

theorem span_append {cs : List Char} (h : isPlain cs = true) (rest : List Char) :
    (cs ++ rest).span (· != '.') = (cs ++ rest.takeWhile (· != '.'), rest.dropWhile (· != '.')) := by
  have hcs : ∀ c ∈ cs, (c != '.') = true := by
    intro c hc
    rw [bne_iff_ne]
    rintro rfl
    exact dot_not_mem h hc
  rw [List.span_eq_takeWhile_dropWhile, List.takeWhile_append_of_pos hcs, List.dropWhile_append_of_pos hcs]

theorem isTable_iff {name : String} : isTable name = true ↔
    isPlain name.toList = true ∨
      ∃ a b, name.toList = a ++ '.' :: b ∧ isPlain a = true ∧ isPlain b = true := by
  refine ⟨isTable_cases, ?_⟩
  rintro (h | ⟨a, b, hn, ha, hb⟩)
  · have hspan := span_append h []
    rw [List.append_nil] at hspan
    rw [isTable, hspan]
    simpa using h
  · have hspan := span_append ha ('.' :: b)
    rw [isTable, hn, hspan]
    simp [ha, hb]

def parts (name : String) : List String :=
  (name.toList.splitOn '.').map String.ofList

theorem parts_of_isPlain {name : String} (h : isPlain name.toList = true) : parts name = [name] := by
  rw [parts, List.splitOn_eq_singleton (dot_not_mem h), List.map_singleton, String.ofList_toList]

theorem parts_of_dot {name : String} {a b : List Char} (h : name.toList = a ++ '.' :: b)
    (ha : isPlain a = true) (hb : isPlain b = true) :
    parts name = [String.ofList a, String.ofList b] := by
  rw [parts, h, List.splitOn_append_cons_self, List.splitOn_eq_singleton (dot_not_mem ha),
    List.splitOn_eq_singleton (dot_not_mem hb)]
  rfl

theorem length_parts {name : String} (h : isTable name = true) :
    (parts name).length = 1 ∨ (parts name).length = 2 := by
  rcases isTable_cases h with hp | ⟨a, b, hn, ha, hb⟩
  · simp [parts_of_isPlain hp]
  · simp [parts_of_dot hn ha hb]

theorem isColumn_of_mem_parts {name : String} (h : isTable name = true) :
    ∀ part ∈ parts name, isColumn part = true := by
  intro part hm
  rcases isTable_cases h with hp | ⟨a, b, hn, ha, hb⟩
  · rw [parts_of_isPlain hp, List.mem_singleton] at hm
    exact hm ▸ hp
  · simp only [parts_of_dot hn ha hb, List.mem_cons, List.not_mem_nil, or_false] at hm
    rcases hm with rfl | rfl
    · rw [isColumn, String.toList_ofList]
      exact ha
    · rw [isColumn, String.toList_ofList]
      exact hb

theorem ne_of_mem {name : String} (h : isTable name = true ∨ isColumn name = true) {x : Char}
    (hx : isSubsequent x = false) (hdot : x ≠ '.') : ∀ c ∈ name.toList, c ≠ x := by
  have hplain {cs : List Char} (h : isPlain cs = true) : ∀ c ∈ cs, c ≠ x := by
    rintro c hc rfl
    rw [isSubsequent_of_mem h hc] at hx
    cases hx
  rcases h with h | h
  · rcases isTable_cases h with h | ⟨a, b, hn, ha, hb⟩
    · exact hplain h
    · intro c hc
      rw [hn, List.mem_append, List.mem_cons] at hc
      rcases hc with hc | rfl | hc
      · exact hplain ha c hc
      · exact hdot.symm
      · exact hplain hb c hc
  · exact hplain h

theorem ne_quote_of_mem {name : String} (h : isTable name = true ∨ isColumn name = true) :
    ∀ c ∈ name.toList, c ≠ '\'' :=
  ne_of_mem h (by decide) (by decide)

end Identifier

end EncryptedColumns
