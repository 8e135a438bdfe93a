import EncryptedColumns.Proofs.Columns
import EncryptedColumns.Registry.Migration

/-!
# The first name that fails

Validating a registry and making its statements each walk through the registry and stop at a
name that is no identifier. All of them meet the names in one order, tables in theirs and the
columns of a table behind it, so all of them stop at the same name.
-/

namespace EncryptedColumns.Registry

def Has (r : Registry) (k : Key) : Prop :=
  match k.column with
  | none => ∃ specs, r.table? k.table = some specs
  | some column => ∃ spec, r.column k.table column = .ok spec

/-- By table, and within a table its own name before those of its columns. -/
def Key.Precedes (a b : Key) : Prop :=
  a.table < b.table ∨ a.table = b.table ∧ a.column < b.column

theorem Key.Precedes.asymm {a b : Key} (h : a.Precedes b) : ¬ b.Precedes a := by
  obtain ⟨t, c⟩ := a
  obtain ⟨t', c'⟩ := b
  rintro (h' | ⟨ht, h'⟩)
  · rcases h with h | ⟨ht, _⟩
    · exact String.lt_asymm h h'
    · exact String.lt_irrefl _ (ht ▸ h')
  · rcases h with h | ⟨_, h⟩
    · exact String.lt_irrefl _ (ht ▸ h)
    · cases c with
      | none =>
        cases c' with
        | none => exact h
        | some => exact h'
      | some =>
        cases c' with
        | none => exact h
        | some => exact String.lt_asymm h h'

theorem mem_tableKeys_iff {t : String × TableSpec} {k : Key} :
    k ∈ tableKeys t ↔ k.table = t.1 ∧ ∀ column, k.column = some column →
      ∃ spec, (column, spec) ∈ t.2.entries := by
  obtain ⟨table, column⟩ := k
  cases column with
  | none => simp [tableKeys]
  | some column =>
    simp only [tableKeys, List.mem_cons, List.mem_map, Key.mk.injEq, reduceCtorEq, and_false, false_or]
    constructor
    · rintro ⟨c, hc, rfl, hname⟩
      cases hname
      exact ⟨rfl, fun column h => ⟨c.2, by cases h; exact hc⟩⟩
    · rintro ⟨ht, h⟩
      obtain ⟨spec, hspec⟩ := h column rfl
      exact ⟨_, hspec, ht.symm, rfl⟩

theorem mem_keys_iff {r : Registry} {k : Key} : k ∈ r.keys ↔ r.Has k := by
  simp only [keys, List.mem_flatMap, mem_tableKeys_iff, Has, column_eq_ok_iff, table?,
    NameMap.find?_eq_some_iff]
  obtain ⟨table, column⟩ := k
  cases column with
  | none => simp
  | some column =>
    constructor
    · rintro ⟨t, ht, rfl, hc⟩
      obtain ⟨spec, hspec⟩ := hc column rfl
      exact ⟨spec, t.2, ht, hspec⟩
    · rintro ⟨spec, specs, ht, hspec⟩
      refine ⟨(table, specs), ht, rfl, fun c hc => ?_⟩
      cases hc
      exact ⟨spec, hspec⟩

theorem pairwise_keys (r : Registry) : r.keys.Pairwise Key.Precedes := by
  rw [keys, List.pairwise_flatMap]
  constructor
  · intro t _
    refine List.pairwise_cons.2 ⟨fun k hk => ?_, ?_⟩
    · obtain ⟨c, _, rfl⟩ := List.mem_map.1 hk
      exact .inr ⟨rfl, trivial⟩
    · rw [List.pairwise_map]
      exact t.2.ascending.imp fun h => .inr ⟨rfl, h⟩
  · refine r.tables.ascending.imp fun h a ha b hb => .inl ?_
    rw [(mem_tableKeys_iff.1 ha).1, (mem_tableKeys_iff.1 hb).1]
    exact h

theorem mem_of_precedes {before after : List Key} {k k' : Key}
    (h : (before ++ k :: after).Pairwise Key.Precedes) (hk' : k' ∈ before ++ k :: after)
    (hp : k'.Precedes k) : k' ∈ before := by
  obtain ⟨_, hafter, _⟩ := List.pairwise_append.1 h
  rcases List.mem_append.1 hk' with hm | hm
  · exact hm
  · rcases List.mem_cons.1 hm with rfl | hm
    · exact absurd hp hp.asymm
    · exact absurd hp ((List.pairwise_cons.1 hafter).1 k' hm).asymm

theorem walk_cases (r : Registry) :
    ((∀ k, r.Has k → k.isIdentifier = true) ∧
      ∀ (β : Type) (write : Entry → β), r.walk write = .ok (r.entries.map write)) ∨
    ∃ k, r.Has k ∧ k.isIdentifier = false ∧
      (∀ k', r.Has k' → k'.Precedes k → k'.isIdentifier = true) ∧
      ∀ (β : Type) (write : Entry → β), r.walk write = .error (.invalidIdentifier k.name) := by
  cases h : r.keys.mapM Key.checked with
  | ok ks =>
    obtain ⟨hall, _⟩ := Key.mapM_checked_eq_ok_iff.1 h
    refine .inl ⟨fun k hk => hall k (mem_keys_iff.2 hk), fun β write => ?_⟩
    rw [walk_eq, h]
    rfl
  | error e =>
    obtain ⟨before, k, after, hkeys, hbefore, hk⟩ := mapM_eq_error_iff.1 h
    obtain ⟨hfails, rfl⟩ := Key.checked_eq_error_iff.1 hk
    refine .inr ⟨k, ?_, hfails, fun k' hk' hp => ?_, fun β write => ?_⟩
    · rw [← mem_keys_iff, hkeys]
      simp
    · -- the keys ascend, so one that precedes `k` was passed before the walk stopped
      have hsorted := pairwise_keys r
      rw [hkeys] at hsorted
      rw [← mem_keys_iff, hkeys] at hk'
      obtain ⟨k'', hpassed⟩ := hbefore k' (mem_of_precedes hsorted hk' hp)
      exact (Key.checked_eq_ok_iff.1 hpassed).1
    · rw [walk_eq, h]
      rfl

theorem validate_eq_walk {r : Registry} (hv : r.version = currentVersion) :
    r.validate = (r.walk fun _ => ()).map fun _ => () := by
  rw [validate, if_neg (not_not_intro hv)]
  rfl

/-- **All walks report the same name.** A registry of the current version is valid and has its
statements if all its names are identifiers. Otherwise each of the four is refused for one and the
same name, which is the first that is no identifier, tables being in order and each in front of its
columns. So is any other walk that checks the names as it comes to them. -/
theorem traversals_agree {r : Registry} (hv : r.version = currentVersion) :
    ((∀ k, r.Has k → k.isIdentifier = true) ∧
      r.validate = .ok () ∧
      (∃ out, r.setupStatements = .ok out) ∧
      (∃ out, r.constraintStatements = .ok out) ∧
      (∃ out, r.migrationStatements = .ok out) ∧
      ∀ (β : Type) (write : Entry → β), ∃ out, r.walk write = .ok out) ∨
    ∃ k, r.Has k ∧ k.isIdentifier = false ∧
      (∀ k', r.Has k' → k'.Precedes k → k'.isIdentifier = true) ∧
      r.validate = .error (.invalidIdentifier k.name) ∧
      r.setupStatements = .error (.invalidIdentifier k.name) ∧
      r.constraintStatements = .error (.invalidIdentifier k.name) ∧
      r.migrationStatements = .error (.invalidIdentifier k.name) ∧
      ∀ (β : Type) (write : Entry → β), r.walk write = .error (.invalidIdentifier k.name) := by
  rw [migrationStatements, setupStatements, constraintStatements, validate_eq_walk hv]
  rcases walk_cases r with ⟨hall, hwalk⟩ | ⟨k, hk, hfails, hfirst, hwalk⟩
  · simp only [hwalk]
    exact .inl ⟨hall, rfl, ⟨_, rfl⟩, ⟨_, rfl⟩, ⟨_, rfl⟩, fun _ _ => ⟨_, rfl⟩⟩
  · simp only [hwalk]
    exact .inr ⟨k, hk, hfails, hfirst, rfl, rfl, rfl, rfl, fun _ _ => rfl⟩

def misnamed : Registry where
  version := currentVersion
  tables := ((NameMap.empty.insert "users." ∅).insert "users" (NameMap.empty.insert "na me" {})).insert
    "public.a" ∅

theorem traversals_agree_misnamed :
    misnamed.version = currentVersion ∧
    misnamed.validate = .error (.invalidIdentifier "na me") ∧
    misnamed.setupStatements = .error (.invalidIdentifier "na me") ∧
    misnamed.constraintStatements = .error (.invalidIdentifier "na me") ∧
    misnamed.migrationStatements = .error (.invalidIdentifier "na me") := by
  have hvalidate : misnamed.validate = .error (.invalidIdentifier "na me") := rfl
  rcases traversals_agree (r := misnamed) rfl with ⟨_, hok, _⟩ | ⟨k, _, _, _, hv, hs, hc, hm, _⟩
  · rw [hvalidate] at hok
    cases hok
  · rw [hvalidate] at hv
    have hname : k.name = "na me" := by simpa [eq_comm] using hv
    exact ⟨rfl, hvalidate, hname ▸ hs, hname ▸ hc, hname ▸ hm⟩

end EncryptedColumns.Registry
