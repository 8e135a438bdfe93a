import EncryptedColumns.Proofs.PredicateRuns

/-!
# What a failed call leaves behind

Values of any type may be compared with, and writing one may fail. A call that fails takes
no number, with one exception: the comparison of a term takes the number of its path before
the value is written, and does not give it back. So over a run the numbers have one gap for
each call of that kind.
-/

namespace EncryptedColumns.Sql

namespace Build

section
variable {α : Type} [Rendered α] {value : α} {b : Builder} {target : ColumnRef} {e : Refusal}
  (h : isNameable b.options.qualify target = true) (hv : render value = .error e)
include h hv

theorem run_comparison_unwritten (mode : QueryMode) (symbol : String) :
    (comparison mode symbol target value).run b = (.error e, b) := by
  rw [comparison, run_bind_ok (run_column h), operand_of_render_error hv]
  exact run_bind_error (run_ofExcept _ b)

theorem run_termComparison_unwritten (path : String) (op : Comparison) :
    (termComparison target path op value).run b = (.error e, b.issue 1) := by
  rw [termComparison, run_bind_ok (run_atPath h .term path), operand_of_render_error hv]
  exact run_bind_error (run_ofExcept _ _)

end

end Build

/-- A call to a builder, with a value of any type that can be written. -/
inductive Attempt : Type 1 where
  | ask {α : Type} [Rendered α] (p : Predicate α)
  | orderBy (target : ColumnRef) (direction : Direction)

/-- Whether the path has its placeholder already when the call fails. -/
def Predicate.tears {α : Type} [Rendered α] (qualify : Bool) : Predicate α → Bool
  | .compareTerm target _ _ value => isNameable qualify target && !(render value).isOk
  | _ => false

namespace Attempt

def run : Attempt → Builder → Except Refusal Fragment × Builder
  | @ask _ _ p, b => p.build.run b
  | .orderBy target direction, b =>
    let (sql, b) := (Build.orderBy target direction).run b
    (sql.map fun sql => ⟨sql, []⟩, b)

def tears (qualify : Bool) : Attempt → Bool
  | @ask _ _ p => p.tears qualify
  | .orderBy _ _ => false

end Attempt

/-- How a call ends, and whether it was torn: the numbers that a fragment takes are those of its
parameters, and a refused call takes none. -/
inductive Ends (b : Builder) : Bool → Except Refusal Fragment × Builder → Prop
  | made (f : Fragment) : Ends b false (.ok f, b.issue f.params.length)
  | refused (e : Refusal) : Ends b false (.error e, b)
  | torn (e : Refusal) : Ends b true (.error e, b.issue 1)

theorem Ends.bare {b : Builder} (sql : String) : Ends b false (.ok ⟨sql, []⟩, b) := by
  have hmade := Ends.made (b := b) ⟨sql, []⟩
  rw [List.length_nil, b.issue_zero] at hmade
  exact hmade

/-! ## One call -/

namespace Build

variable {b : Builder} {target : ColumnRef}

theorem ends_comparison {α : Type} [Rendered α] (mode : QueryMode) (symbol : String) (value : α) :
    Ends b false ((comparison mode symbol target value).run b) := by
  cases h : isNameable b.options.qualify target with
  | false =>
    obtain ⟨e, he⟩ := run_comparison_error h mode symbol value
    rw [he]
    exact .refused e
  | true =>
    cases hv : render value with
    | error e =>
      rw [run_comparison_unwritten h hv]
      exact .refused e
    | ok text =>
      rw [run_comparison h hv]
      exact .made _

theorem ends_atPath (function : PathFunction) (path : String) :
    Ends b false ((atPath function target path).run b) := by
  cases h : isNameable b.options.qualify target with
  | false =>
    obtain ⟨e, he⟩ := run_atPath_error h function path
    rw [he]
    exact .refused e
  | true =>
    rw [run_atPath h]
    exact .made _

theorem ends_termComparison {α : Type} [Rendered α] (path : String) (op : Comparison) (value : α) :
    Ends b (isNameable b.options.qualify target && !(render value).isOk)
      ((termComparison target path op value).run b) := by
  cases h : isNameable b.options.qualify target with
  | false =>
    obtain ⟨e, he⟩ := run_termComparison_error h path op value
    rw [he]
    exact .refused e
  | true =>
    cases hv : render value with
    | error e =>
      rw [run_termComparison_unwritten h hv]
      exact .torn e
    | ok text =>
      rw [run_termComparison h hv]
      exact .made _

theorem ends_orderBy (direction : Direction) :
    Ends b false ((Attempt.orderBy target direction).run b) := by
  cases h : isNameable b.options.qualify target with
  | false =>
    obtain ⟨e, he⟩ := run_orderBy_error h direction
    rw [Attempt.run, he]
    exact .refused e
  | true =>
    rw [Attempt.run, run_orderBy_ok h]
    exact .bare _

end Build

namespace Attempt

theorem ends_run (c : Attempt) (b : Builder) : Ends b (c.tears b.options.qualify) (c.run b) := by
  cases c with
  | ask p =>
    cases p with
    | matching target value => exact Build.ends_comparison .matching "@>" value
    | compare target op value => exact Build.ends_comparison .ore op.symbol value
    | equal target value => exact Build.ends_comparison .unique "=" value
    | contains target value => exact Build.ends_comparison .steVec "@>" value
    | valueAt target path => exact Build.ends_atPath .value path
    | termsAt target path => exact Build.ends_atPath .terms path
    | compareTerm target path op value => exact Build.ends_termComparison path op value
  | orderBy target direction => exact Build.ends_orderBy direction

/-- **Failed calls.** A failed call leaves the builder as it was, unless its path has taken a number
before the value could not be written. Then that number is lost. -/
theorem failed_run_iff {c : Attempt} {b b' : Builder} {e : Refusal} (h : c.run b = (.error e, b')) :
    let lost := b.options.placeholder = .numbered ∧ c.tears b.options.qualify = true
    (b'.nextParam = b.nextParam ↔ ¬ lost) ∧ (¬ lost → b' = b) ∧ (lost → b' = b.advance 1) := by
  intro lost
  have hends := c.ends_run b
  rw [h] at hends
  by_cases hlost : lost
  · rw [hlost.2] at hends
    cases hends
    rw [Builder.issue_of_numbered hlost.1]
    refine ⟨iff_of_false ?_ (not_not_intro hlost), fun hkept => absurd hlost hkept, fun _ => rfl⟩
    exact Nat.succ_ne_self b.nextParam
  · have hkept : b' = b := by
      cases ht : c.tears b.options.qualify with
      | false =>
        rw [ht] at hends
        cases hends
        rfl
      | true =>
        -- torn all the same, but without numbers there is none to lose
        rw [ht] at hends
        cases hends
        cases hn : b.options.placeholder with
        | numbered => exact absurd ⟨hn, ht⟩ hlost
        | positional => exact Builder.issue_of_positional hn 1
    rw [hkept]
    exact ⟨iff_of_true rfl hlost, fun _ => rfl, fun h => absurd h hlost⟩

inductive Reading where
  | taken (n : Int64)
  | missing

instance : Plaintext Reading where
  render
    | .taken n => .ok (Integer.write n)
    | .missing => .error (.unsupportedType .null)
  kind := .integer
  parse p := do return .taken (← Kind.integer.read p)

def termOfMissing : Attempt :=
  .ask (.compareTerm ⟨"t", "c"⟩ "$.a" .eq Reading.missing)

theorem failed_run_iff_missing : ∃ e lost kept,
    termOfMissing.run (.start {}) = (.error e, lost) ∧ lost = ⟨{}, 2⟩ ∧
    (ask (.contains ⟨"t", "c"⟩ Reading.missing)).run (.start {}) = (.error e, kept) ∧ kept = ⟨{}, 1⟩ := by
  have hterm : termOfMissing.run (.start {}) = (.error (.unsupportedType .null), ⟨{}, 2⟩) := rfl
  have hcontains : (ask (.contains ⟨"t", "c"⟩ Reading.missing)).run (.start {}) =
      (.error (.unsupportedType .null), ⟨{}, 1⟩) := rfl
  exact ⟨_, _, _, hterm, (failed_run_iff hterm).2.2 (by decide), hcontains,
    (failed_run_iff hcontains).2.1 (by decide)⟩

/-- The failed call has used up `$1`, and the fragment that is made next starts at `$2`. -/
theorem not_kept_of_missing : ∃ e b f,
    termOfMissing.run (.start {}) = (.error e, b) ∧ b.nextParam ≠ (Builder.start {}).nextParam ∧
    ((ask (.equal ⟨"t", "c"⟩ (Reading.taken 7))).run b).1 = .ok f ∧
      f.sql = "cs_unique_v1(c) = cs_unique_v1($2)" :=
  ⟨.unsupportedType .null, ⟨{}, 2⟩, _, rfl, by decide, rfl, rfl⟩

/-! ## Runs of calls -/

def runEach : List Attempt → Builder → List Fragment × Builder
  | [], b => ([], b)
  | c :: cs, b =>
    let (r, b) := c.run b
    let (fs, b) := runEach cs b
    (r.toOption.toList ++ fs, b)

theorem nextParam_runEach (cs : List Attempt) {b : Builder} (hn : b.options.placeholder = .numbered) :
    (runEach cs b).2.nextParam = b.nextParam + ((runEach cs b).1.flatMap (·.params)).length +
      cs.countP (·.tears b.options.qualify) := by
  induction cs generalizing b with
  | nil => rfl
  | cons c cs ih =>
    have hends := c.ends_run b
    rw [runEach, List.countP_cons]
    -- only how the call ends matters, so `cases` needs the call itself out of the way
    generalize c.tears b.options.qualify = t at hends ⊢
    generalize c.run b = x at hends ⊢
    cases hends with
    | made f =>
      have hrest := @ih (b.advance f.params.length) hn
      rw [Builder.issue_of_numbered hn]
      show (runEach cs (b.advance f.params.length)).2.nextParam =
        b.nextParam + ((f :: (runEach cs (b.advance f.params.length)).1).flatMap (·.params)).length + _
      rw [hrest, List.flatMap_cons, List.length_append]
      simp only [Builder.advance, Bool.false_eq_true, if_false]
      omega
    | refused e => exact ih hn
    | torn e =>
      have hrest := @ih (b.advance 1) hn
      rw [Builder.issue_of_numbered hn]
      show (runEach cs (b.advance 1)).2.nextParam =
        b.nextParam + ((runEach cs (b.advance 1)).1.flatMap (·.params)).length + _
      rw [hrest]
      simp only [Builder.advance, if_true]
      omega

end Attempt

end EncryptedColumns.Sql
