import EncryptedColumns.Json.Basic
import Mathlib.Data.List.Basic

/-!
# Fields of an object

In an object whose keys are distinct a key has one field. Inserting keeps the keys
distinct and the other fields as they are, and what was inserted is found.
-/

namespace EncryptedColumns.Object

theorem find?_of_mem {o : Object} (hd : (o.map (·.1)).Nodup) {key : String} {v : Json}
    (h : (key, v) ∈ o) : o.find? key = some v := by
  induction o with
  | nil => cases h
  | cons f o ih =>
    obtain ⟨k, u⟩ := f
    obtain ⟨hnot, hd⟩ := List.nodup_cons.1 hd
    rw [find?, List.lookup_cons]
    rcases List.mem_cons.1 h with heq | hm
    · cases heq
      rw [beq_self_eq_true]
    · have hne : key ≠ k := by
        rintro rfl
        exact hnot (List.mem_map.2 ⟨_, hm, rfl⟩)
      rw [beq_false_of_ne hne]
      exact ih hd hm

theorem mem_insert {o : Object} {key : String} {v : Json} {f : String × Json}
    (h : f ∈ o.insert key v) : f = (key, v) ∨ f ∈ o := by
  induction o with
  | nil => exact .inl (List.mem_singleton.1 h)
  | cons g o ih =>
    rw [insert] at h
    split at h
    · rename_i hk
      rcases List.mem_cons.1 h with h | h
      · exact .inl (hk ▸ h)
      · exact .inr (List.mem_cons_of_mem _ h)
    · rcases List.mem_cons.1 h with h | h
      · exact .inr (h ▸ List.mem_cons_self ..)
      · exact (ih h).imp_right (List.mem_cons_of_mem _)

theorem mem_insert_of_ne {o : Object} {key : String} {f : String × Json} (h : f ∈ o) (hne : f.1 ≠ key)
    (v : Json) : f ∈ o.insert key v := by
  induction o with
  | nil => cases h
  | cons g o ih =>
    rw [insert]
    rcases List.mem_cons.1 h with rfl | h
    · rw [if_neg hne]
      exact List.mem_cons_self ..
    · split
      · exact List.mem_cons_of_mem _ h
      · exact List.mem_cons_of_mem _ (ih h)

theorem nodup_insert {o : Object} (hd : (o.map (·.1)).Nodup) (key : String) (v : Json) :
    ((o.insert key v).map (·.1)).Nodup := by
  induction o with
  | nil => exact List.nodup_cons.2 ⟨List.not_mem_nil, List.nodup_nil⟩
  | cons g o ih =>
    obtain ⟨hnot, hd'⟩ := List.nodup_cons.1 hd
    rw [insert]
    split
    · exact hd
    · rename_i hne
      refine List.nodup_cons.2 ⟨fun hm => ?_, ih hd'⟩
      obtain ⟨f, hf, he⟩ := List.mem_map.1 hm
      rcases mem_insert hf with rfl | hf
      · exact hne he.symm
      · exact hnot (List.mem_map.2 ⟨f, hf, he⟩)

theorem find?_insert_self (o : Object) (key : String) (v : Json) :
    (o.insert key v).find? key = some v := by
  induction o with
  | nil => simp [insert, find?]
  | cons f o ih =>
    rw [insert]
    by_cases hk : f.1 = key
    · rw [if_pos hk, find?, List.lookup_cons, hk, beq_self_eq_true]
    · rw [if_neg hk, find?, List.lookup_cons, beq_false_of_ne (Ne.symm hk)]
      exact ih

theorem find?_insert_of_ne {o : Object} {key other : String} (h : other ≠ key) (v : Json) :
    (o.insert key v).find? other = o.find? other := by
  induction o with
  | nil => simp [insert, find?, h]
  | cons f o ih =>
    rw [insert]
    by_cases hk : f.1 = key
    · rw [if_pos hk, find?, find?, List.lookup_cons, List.lookup_cons, hk, beq_false_of_ne h]
    · rw [if_neg hk, find?, find?, List.lookup_cons, List.lookup_cons]
      cases other == f.1 with
      | true => rfl
      | false => exact ih

end EncryptedColumns.Object
