import EncryptedColumns.Proofs.PredicateTemplates

/-!
# Placeholders over a run

The fragments that one builder makes share a single numbering, whatever fails in
between. Joined in the order in which they were made, in any grouping, they have one
placeholder for every parameter, in order and without gaps.
-/

namespace EncryptedColumns.Sql

inductive Call where
  | ask {k : Kind} (p : Predicate k.Carrier)
  | orderBy (target : ColumnRef) (direction : Direction)

namespace Call

def run : Call → Builder → Option Fragment × Builder
  | .ask p, b =>
    match p.build.run b with
    | (.ok f, b') => (some f, b')
    | (.error _, b') => (none, b')
  | .orderBy target direction, b => (none, ((Build.orderBy target direction).run b).2)

def template? (qualify : Bool) : Call → Option (List Piece)
  | .ask p => if isNameable qualify p.target then some (p.template qualify) else none
  | .orderBy _ _ => none

variable {b : Builder}

theorem run_none {c : Call} (h : c.template? b.options.qualify = none) : c.run b = (none, b) := by
  cases c with
  | ask p =>
    have hp : isNameable b.options.qualify p.target = false := by simpa [template?] using h
    obtain ⟨e, he⟩ := p.run_build_error hp
    rw [run, he]
  | orderBy target direction => rw [run, Build.run_orderBy]

theorem run_some (hn : b.options.placeholder = .numbered) {c : Call} {ps : List Piece}
    (h : c.template? b.options.qualify = some ps) :
    c.run b = (some (.ofTemplate b.nextParam ps), b.advance (operands ps).length) := by
  cases c with
  | ask p =>
    obtain ⟨hp, rfl⟩ : isNameable b.options.qualify p.target = true ∧
        p.template b.options.qualify = ps := by
      simpa [template?] using h
    rw [run, p.run_build_numbered hn hp]
  | orderBy target direction => cases h

theorem isFixed_template {c : Call} {qualify : Bool} {ps : List Piece}
    (h : c.template? qualify = some ps) : ∀ p ∈ ps, p.IsFixed := by
  cases c with
  | ask p =>
    obtain ⟨hp, rfl⟩ : isNameable qualify p.target = true ∧ p.template qualify = ps := by
      simpa [template?] using h
    exact p.isFixed_template hp
  | orderBy target direction => cases h

end Call

def runAll : List Call → Builder → List Fragment × Builder
  | [], b => ([], b)
  | c :: cs, b =>
    let (f, b) := c.run b
    let (fs, b) := runAll cs b
    (f.toList ++ fs, b)

def fragmentsFrom : Nat → List (List Piece) → List Fragment
  | _, [] => []
  | n, ps :: pss => .ofTemplate n ps :: fragmentsFrom (n + (operands ps).length) pss

theorem runAll_eq : ∀ (cs : List Call) {b : Builder}, b.options.placeholder = .numbered →
    runAll cs b =
      (fragmentsFrom b.nextParam (cs.filterMap (Call.template? b.options.qualify)),
        b.advance ((cs.filterMap (Call.template? b.options.qualify)).flatMap operands).length)
  | [], b, _ => rfl
  | c :: cs, b, hn => by
    rw [runAll, List.filterMap_cons]
    cases hc : c.template? b.options.qualify with
    | none => rw [Call.run_none hc]; exact runAll_eq cs hn
    | some ps =>
      have ih := runAll_eq cs (b := b.advance (operands ps).length) hn
      rw [Call.run_some hn hc]
      show (_ :: (runAll cs (b.advance (operands ps).length)).1, (runAll cs _).2) = _
      rw [ih, List.flatMap_cons, List.length_append]
      simp only [Builder.advance, fragmentsFrom, Nat.add_assoc]

/-! ## Joins -/

/-- Fragments joined in order, in some grouping. -/
inductive IsJoin : List Fragment → Fragment → Prop
  | one (f : Fragment) : IsJoin [f] f
  | and {fs gs : List Fragment} {f g : Fragment} :
    IsJoin fs f → IsJoin gs g → IsJoin (fs ++ gs) (f.and g)

theorem Fragment.and_assoc (a b c : Fragment) : (a.and b).and c = a.and (b.and c) := by
  simp only [Fragment.and, String.append_assoc, List.append_assoc]

theorem foldl_and (a b : Fragment) (fs : List Fragment) :
    fs.foldl Fragment.and (a.and b) = a.and (fs.foldl Fragment.and b) := by
  induction fs generalizing b with
  | nil => rfl
  | cons f fs ih => rw [List.foldl_cons, List.foldl_cons, Fragment.and_assoc, ih]

theorem IsJoin.eq_foldl {fs : List Fragment} {f : Fragment} (h : IsJoin fs f) :
    ∃ g gs, fs = g :: gs ∧ f = gs.foldl Fragment.and g := by
  induction h with
  | one f => exact ⟨f, [], rfl, rfl⟩
  | and _ _ ihf ihg =>
    obtain ⟨f, fs, rfl, rfl⟩ := ihf
    obtain ⟨g, gs, rfl, rfl⟩ := ihg
    refine ⟨f, fs ++ g :: gs, rfl, ?_⟩
    rw [List.foldl_append, List.foldl_cons, foldl_and]

theorem IsJoin.unique {fs : List Fragment} {f g : Fragment} (hf : IsJoin fs f) (hg : IsJoin fs g) :
    f = g := by
  obtain ⟨a, as, rfl, rfl⟩ := hf.eq_foldl
  obtain ⟨b, bs, hb, rfl⟩ := hg.eq_foldl
  cases hb
  rfl

def conjunction (pss : List (List Piece)) : List Piece :=
  List.intercalate [.text " AND "] pss

theorem conjunction_cons_cons (ps qs : List Piece) (pss : List (List Piece)) :
    conjunction (ps :: qs :: pss) = ps ++ .text " AND " :: conjunction (qs :: pss) := by
  simp [conjunction, List.intercalate]

theorem conjunction_merge (ps qs : List Piece) (pss : List (List Piece)) :
    conjunction ((ps ++ .text " AND " :: qs) :: pss) = conjunction (ps :: qs :: pss) := by
  cases pss <;> simp [conjunction, List.intercalate]

theorem ofTemplate_and (n : Nat) (ps qs : List Piece) :
    (Fragment.ofTemplate n ps).and (.ofTemplate (n + (operands ps).length) qs) =
      .ofTemplate n (ps ++ .text " AND " :: qs) := by
  rw [Fragment.ofTemplate, Fragment.ofTemplate, Fragment.and, Fragment.ofTemplate, numbered_append,
    operands_append, numbered, String.append_assoc]
  rfl

theorem foldl_fragmentsFrom (n : Nat) (ps : List Piece) (pss : List (List Piece)) :
    (fragmentsFrom (n + (operands ps).length) pss).foldl Fragment.and (.ofTemplate n ps) =
      .ofTemplate n (conjunction (ps :: pss)) := by
  -- the first two templates become one, from which the fold goes on
  induction pss generalizing ps with
  | nil =>
    rw [fragmentsFrom, List.foldl_nil, conjunction]
    simp [List.intercalate]
  | cons qs pss ih =>
    have hn : (operands (ps ++ .text " AND " :: qs)).length =
        (operands ps).length + (operands qs).length := by
      rw [operands_append, List.length_append]
      rfl
    rw [fragmentsFrom, List.foldl_cons, ofTemplate_and, Nat.add_assoc, ← hn, ih, conjunction_merge]

theorem IsJoin.eq_ofTemplate {n : Nat} {pss : List (List Piece)} {f : Fragment}
    (h : IsJoin (fragmentsFrom n pss) f) : f = .ofTemplate n (conjunction pss) := by
  obtain ⟨g, gs, hg, rfl⟩ := h.eq_foldl
  cases pss with
  | nil => cases hg
  | cons ps pss =>
    obtain ⟨rfl, rfl⟩ := List.cons.inj hg
    exact foldl_fragmentsFrom n ps pss

theorem isFixed_conjunction : ∀ {pss : List (List Piece)},
    (∀ ps ∈ pss, ∀ p ∈ ps, p.IsFixed) → ∀ p ∈ conjunction pss, p.IsFixed
  | [], _ => fun p hp => by cases hp
  | [ps], h => by
    have hps : conjunction [ps] = ps := by simp [conjunction, List.intercalate]
    rw [hps]
    exact h ps (List.mem_singleton_self ps)
  | ps :: qs :: pss, h => by
    have hand : Piece.IsFixed (.text " AND ") := ⟨by decide, by decide⟩
    obtain ⟨hps, h⟩ := List.forall_mem_cons.1 h
    rw [conjunction_cons_cons, List.forall_mem_append, List.forall_mem_cons]
    exact ⟨hps, hand, isFixed_conjunction h⟩

/-! ## Numbers and parameters -/

theorem params_fragmentsFrom (n : Nat) (pss : List (List Piece)) :
    (fragmentsFrom n pss).flatMap (·.params) = pss.flatMap operands := by
  induction pss generalizing n with
  | nil => rfl
  | cons ps pss ih => rw [fragmentsFrom, List.flatMap_cons, List.flatMap_cons, ih]; rfl

theorem operands_conjunction : ∀ pss : List (List Piece),
    operands (conjunction pss) = pss.flatMap operands
  | [] => rfl
  | [ps] => by simp [conjunction, List.intercalate]
  | ps :: qs :: pss => by
    rw [conjunction_cons_cons, operands_append, List.flatMap_cons, ← operands_conjunction (qs :: pss)]
    rfl

/-- **Placeholders and parameters stay aligned.** A call that makes no fragment takes no number.
The fragments of a run, however they are joined, are the templates of the calls that succeed,
with the placeholders numbered without gaps and each bound to the operand at its place. -/
theorem placeholders_runAll (first : Nat) (qualify : Bool) (calls : List Call) :
    let options : Options := ⟨.numbered, first, qualify⟩
    let made := runAll calls (.start options)
    let templates := calls.filterMap (Call.template? qualify)
    (∀ n (c : Call), (c.run ⟨options, n⟩).1 = none → (c.run ⟨options, n⟩).2 = ⟨options, n⟩) ∧
    made.2.nextParam = first + (made.1.flatMap (·.params)).length ∧
    ∀ joined, IsJoin made.1 joined →
      made.2.nextParam = first + joined.params.length ∧
      placeholders joined.sql = (List.range' first joined.params.length).map Nat.repr ∧
      (tokens joined.sql).map (Token.fill first joined.params) =
        ((conjunction templates).flatMap Piece.filled).map some ∧
      ∀ other, IsJoin made.1 other → other = joined := by
  intro options made templates
  have hmade : made = (fragmentsFrom first templates,
      (Builder.start options).advance (templates.flatMap operands).length) := runAll_eq calls rfl
  have hfixed : ∀ p ∈ conjunction templates, p.IsFixed := by
    refine isFixed_conjunction fun ps hps => ?_
    obtain ⟨c, _, hc⟩ := List.mem_filterMap.1 hps
    exact Call.isFixed_template hc
  refine ⟨fun n c hc => ?_, ?_, fun joined hj => ?_⟩
  · cases ht : c.template? qualify with
    | none => rw [Call.run_none ht]
    | some ps => rw [Call.run_some rfl ht] at hc; cases hc
  · rw [hmade, params_fragmentsFrom]
    rfl
  · -- a join is the fragment of one template, whose numbers are those of its operands
    have hj' : joined = .ofTemplate first (conjunction templates) := by
      rw [hmade] at hj
      exact hj.eq_ofTemplate
    refine ⟨?_, ?_, ?_, fun other ho => ho.unique hj⟩
    · rw [hmade, hj']
      show first + _ = first + (operands (conjunction templates)).length
      rw [operands_conjunction]
    · rw [hj']
      exact placeholders_numbered hfixed first
    · have hfill := fill_numbered hfixed first [] []
      rw [List.append_nil] at hfill
      rw [hj']
      exact hfill

def mixedCalls : List Call :=
  [.ask (k := .integer) (.compareTerm ⟨"t", "a$1"⟩ "$.x" .gt 5),
    .ask (k := .text) (.matching ⟨"t", "no name"⟩ "x"),
    .orderBy ⟨"t", "a$1"⟩ .descending,
    .ask (k := .boolean) (.equal ⟨"t", "b"⟩ true)]

theorem placeholders_runAll_mixed :
    ∃ joined, IsJoin (runAll mixedCalls (.start ⟨.numbered, 7, false⟩)).1 joined ∧
      placeholders joined.sql = ["7", "8", "9"] := by
  have hmade : ∃ f g, (runAll mixedCalls (.start ⟨.numbered, 7, false⟩)).1 = [f] ++ [g] :=
    ⟨_, _, rfl⟩
  have hnext : (runAll mixedCalls (.start ⟨.numbered, 7, false⟩)).2.nextParam = 7 + 3 := rfl
  obtain ⟨f, g, hmade⟩ := hmade
  obtain ⟨_, _, hjoin⟩ := placeholders_runAll 7 false mixedCalls
  have hj : IsJoin (runAll mixedCalls (.start ⟨.numbered, 7, false⟩)).1 (f.and g) :=
    hmade ▸ .and (.one f) (.one g)
  obtain ⟨hn, hplaceholders, _⟩ := hjoin _ hj
  have hlength : (f.and g).params.length = 3 := Nat.add_left_cancel (hn.symm.trans hnext)
  refine ⟨f.and g, hj, ?_⟩
  rw [hplaceholders, hlength]
  rfl

end EncryptedColumns.Sql
