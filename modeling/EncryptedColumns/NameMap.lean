/-!
# Maps from names

The entries stand in ascending order of their names, each name once. Two maps
with the same entries are therefore the same map, however they came about.
-/

namespace EncryptedColumns

structure NameMap (α : Type) where
  entries : List (String × α)
  ascending : entries.Pairwise (·.1 < ·.1)
  deriving DecidableEq

namespace NameMap

variable {α : Type}

def empty : NameMap α := ⟨[], .nil⟩

instance : EmptyCollection (NameMap α) := ⟨empty⟩

instance : Inhabited (NameMap α) := ⟨empty⟩

def find? (m : NameMap α) (name : String) : Option α :=
  m.entries.lookup name

def names (m : NameMap α) : List String :=
  m.entries.map (·.1)

def insertEntry (name : String) (a : α) : List (String × α) → List (String × α)
  | [] => [(name, a)]
  | (n, b) :: es =>
    if name < n then (name, a) :: (n, b) :: es
    else if name = n then (name, a) :: es
    else (n, b) :: insertEntry name a es

theorem mem_insertEntry {name : String} {a : α} {es : List (String × α)} {e : String × α}
    (h : e ∈ insertEntry name a es) : e = (name, a) ∨ e ∈ es := by
  induction es with
  | nil => simpa [insertEntry] using h
  | cons d es ih =>
    obtain ⟨n, b⟩ := d
    rw [insertEntry] at h
    split at h
    · simpa using h
    · split at h
      · rcases List.mem_cons.1 h with h | h
        · exact .inl h
        · exact .inr (List.mem_cons_of_mem _ h)
      · rcases List.mem_cons.1 h with h | h
        · exact .inr (h ▸ List.mem_cons_self ..)
        · exact (ih h).imp_right (List.mem_cons_of_mem _)

theorem ascending_insertEntry (name : String) (a : α) {es : List (String × α)}
    (h : es.Pairwise (·.1 < ·.1)) : (insertEntry name a es).Pairwise (·.1 < ·.1) := by
  induction es with
  | nil => simp [insertEntry]
  | cons d es ih =>
    obtain ⟨n, b⟩ := d
    obtain ⟨hd, hes⟩ := List.pairwise_cons.1 h
    rw [insertEntry]
    split
    · rename_i hlt
      refine List.pairwise_cons.2 ⟨fun e he => ?_, h⟩
      rcases List.mem_cons.1 he with he | he
      · exact he ▸ hlt
      · exact String.lt_trans hlt (hd e he)
    · rename_i hge
      split
      · rename_i heq
        exact List.pairwise_cons.2 ⟨fun e he => heq ▸ hd e he, hes⟩
      · rename_i hne
        refine List.pairwise_cons.2 ⟨fun e he => ?_, ih hes⟩
        rcases mem_insertEntry he with he | he
        · subst he
          exact Std.lt_of_le_of_ne (String.not_lt.1 hge) (Ne.symm hne)
        · exact hd e he

def insert (m : NameMap α) (name : String) (a : α) : NameMap α :=
  ⟨insertEntry name a m.entries, ascending_insertEntry name a m.ascending⟩

end NameMap

end EncryptedColumns
