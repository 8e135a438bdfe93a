import EncryptedColumns.Sql.Predicate

/-!
# Runs of predicates

A predicate on a column with checked names makes a fragment and takes a hole for each of
its operands. The text of the fragment is fixed by the form of the predicate, which is
all of it but the operands. On any other column it fails and leaves the builder as it was.
-/

namespace EncryptedColumns.Sql

namespace Build

variable {α β : Type}

theorem run_get (b : Builder) : (get : Build Builder).run b = (.ok b, b) := rfl

theorem run_ofExcept (x : Except Refusal α) (b : Builder) : (ofExcept x : Build α).run b = (x, b) := by
  cases x <;> rfl

section
variable {x : Build α} {f : α → Build β} {b b' : Builder}

theorem run_bind_ok {a : α} (h : x.run b = (.ok a, b')) : (x >>= f).run b = (f a).run b' := by
  unfold Build.run at h ⊢
  rw [ExceptT.run_bind, StateT.run_bind, h]
  rfl

theorem run_bind_error {e : Refusal} (h : x.run b = (.error e, b')) :
    (x >>= f).run b = (.error e, b') := by
  unfold Build.run at h ⊢
  rw [ExceptT.run_bind, StateT.run_bind, h]
  rfl

end

end Build

/-! ## Holes -/

namespace Builder

def hole (b : Builder) (i : Nat) : String :=
  match b.options.placeholder with
  | .numbered => "$" ++ (b.nextParam + i).repr
  | .positional => "?"

def advance (b : Builder) (n : Nat) : Builder :=
  { b with nextParam := b.nextParam + n }

def issue (b : Builder) (n : Nat) : Builder :=
  match b.options.placeholder with
  | .numbered => b.advance n
  | .positional => b

theorem options_issue (b : Builder) (n : Nat) : (b.issue n).options = b.options := by
  unfold issue
  cases b.options.placeholder <;> rfl

theorem issue_of_numbered {b : Builder} (h : b.options.placeholder = .numbered) (n : Nat) :
    b.issue n = b.advance n := by
  rw [issue, h]

theorem issue_of_positional {b : Builder} (h : b.options.placeholder = .positional) (n : Nat) :
    b.issue n = b := by
  rw [issue, h]

theorem issue_zero (b : Builder) : b.issue 0 = b := by
  unfold issue
  cases b.options.placeholder <;> rfl

theorem issue_issue (b : Builder) (m n : Nat) : (b.issue m).issue n = b.issue (m + n) := by
  have h := b.options_issue m
  rw [issue, h, issue, issue]
  cases b.options.placeholder with
  | numbered => simp only [advance, Nat.add_assoc]
  | positional => rfl

theorem hole_issue (b : Builder) (m i : Nat) : (b.issue m).hole i = b.hole (m + i) := by
  have h := b.options_issue m
  rw [hole, h, issue, hole]
  cases b.options.placeholder with
  | numbered => simp only [advance, Nat.add_assoc]
  | positional => rfl

end Builder

theorem Build.run_placeholder (b : Builder) : placeholder.run b = (.ok (b.hole 0), b.issue 1) := by
  rw [placeholder, run_bind_ok (run_get b), Builder.hole, Builder.issue]
  cases b.options.placeholder <;> rfl

def isNameable (qualify : Bool) (target : ColumnRef) : Bool :=
  Identifier.isColumn target.column && (!qualify || Identifier.isTable target.table)

def columnText (qualify : Bool) (target : ColumnRef) : String :=
  if qualify then target.table ++ "." ++ target.column else target.column

namespace Build

section
variable {b : Builder} {target : ColumnRef}

theorem run_column (h : isNameable b.options.qualify target = true) :
    (column target).run b = (.ok (columnText b.options.qualify target), b) := by
  rw [isNameable, Bool.and_eq_true] at h
  have hcolumn : (ofExcept (checkColumn target.column) : Build Unit).run b = (.ok (), b) := by
    rw [run_ofExcept, checkColumn, if_pos h.1]
  rw [column, run_bind_ok hcolumn, run_bind_ok (run_get b), columnText]
  cases hq : b.options.qualify with
  | false => rfl
  | true =>
    have ht : Identifier.isTable target.table = true := by simpa [hq] using h.2
    have htable : (ofExcept (checkTable target.table) : Build Unit).run b = (.ok (), b) := by
      rw [run_ofExcept, checkTable, if_pos ht]
    rw [if_pos rfl, if_pos rfl, run_bind_ok htable]
    rfl

theorem run_column_error (h : isNameable b.options.qualify target = false) :
    ∃ e, (column target).run b = (.error e, b) := by
  by_cases hc : Identifier.isColumn target.column = true
  · have hcolumn : (ofExcept (checkColumn target.column) : Build Unit).run b = (.ok (), b) := by
      rw [run_ofExcept, checkColumn, if_pos hc]
    cases hq : b.options.qualify with
    | false => simp [isNameable, hc, hq] at h
    | true =>
      have ht : ¬ Identifier.isTable target.table = true := by simpa [isNameable, hc, hq] using h
      have htable : (ofExcept (checkTable target.table) : Build Unit).run b =
          (.error (.invalidIdentifier target.table), b) := by
        rw [run_ofExcept, checkTable, if_neg ht]
      refine ⟨.invalidIdentifier target.table, ?_⟩
      rw [column, run_bind_ok hcolumn, run_bind_ok (run_get b), hq, if_pos rfl, run_bind_error htable]
  · have hcolumn : (ofExcept (checkColumn target.column) : Build Unit).run b =
        (.error (.invalidIdentifier target.column), b) := by
      rw [run_ofExcept, checkColumn, if_neg hc]
    refine ⟨.invalidIdentifier target.column, ?_⟩
    rw [column, run_bind_error hcolumn]

end

end Build

/-! ## Forms -/

namespace Predicate

def target {α : Type} : Predicate α → ColumnRef
  | .matching target _ | .compare target _ _ | .equal target _ | .contains target _
  | .valueAt target _ | .termsAt target _ | .compareTerm target _ _ _ => target

def form {α : Type} : Predicate α → Predicate Unit
  | .matching target _ => .matching target ()
  | .compare target op _ => .compare target op ()
  | .equal target _ => .equal target ()
  | .contains target _ => .contains target ()
  | .valueAt target _ => .valueAt target ""
  | .termsAt target _ => .termsAt target ""
  | .compareTerm target _ op _ => .compareTerm target "" op ()

def texts {k : Kind} : Predicate k.Carrier → List String
  | .matching _ value | .compare _ _ value | .equal _ value | .contains _ value => [k.write value]
  | .valueAt _ path | .termsAt _ path => [path]
  | .compareTerm _ path _ value => [path, k.write value]

end Predicate

section
variable (column : String)

def comparisonSql (mode : QueryMode) (symbol hole : String) : String :=
  mode.sqlFunction ++ "(" ++ column ++ ") " ++ symbol ++ " " ++ mode.sqlFunction ++ "(" ++ hole ++ ")"

def pathSql (function : PathFunction) (hole : String) : String :=
  function.name ++ "(" ++ column ++ ", " ++ hole ++ ")"

def termSql (op : Comparison) (path value : String) : String :=
  pathSql column .term path ++ " " ++ op.symbol ++ " " ++ PathFunction.term.name ++ "(" ++ value ++ ")"

/-- The text of a fragment, given what stands for the column and for the operands. -/
def Predicate.sql (hole : Nat → String) : Predicate Unit → String
  | .matching _ _ => comparisonSql column .matching "@>" (hole 0)
  | .compare _ op _ => comparisonSql column .ore op.symbol (hole 0)
  | .equal _ _ => comparisonSql column .unique "=" (hole 0)
  | .contains _ _ => comparisonSql column .steVec "@>" (hole 0)
  | .valueAt _ _ => pathSql column .value (hole 0)
  | .termsAt _ _ => pathSql column .terms (hole 0)
  | .compareTerm _ _ op _ => termSql column op (hole 0) (hole 1)

end

def Predicate.arity : Predicate Unit → Nat
  | .compareTerm _ _ _ _ => 2
  | _ => 1

/-! ## Runs -/

def bound (target : ColumnRef) (text : String) : String :=
  (Envelope.wrap text target.table target.column).write

section
variable {α : Type} [Rendered α] {value : α}

theorem operand_of_render {text : String} (h : render value = .ok text) (target : ColumnRef)
    (mode : QueryMode) : operand value target.table target.column mode = .ok (bound target text) := by
  rw [operand, encode, h]
  rfl

theorem operand_of_render_error {e : Refusal} (h : render value = .error e) (target : ColumnRef)
    (mode : QueryMode) : operand value target.table target.column mode = .error e := by
  rw [operand, encode, h]
  rfl

end

namespace Build

section
variable {b : Builder} {target : ColumnRef}

section
variable {α : Type} [Rendered α] {value : α} {text : String}
  (h : isNameable b.options.qualify target = true)
include h

theorem run_comparison (hv : render value = .ok text) (mode : QueryMode) (symbol : String) :
    (comparison mode symbol target value).run b =
      (.ok ⟨comparisonSql (columnText b.options.qualify target) mode symbol (b.hole 0),
        [bound target text]⟩, b.issue 1) := by
  rw [comparison, run_bind_ok (run_column h), operand_of_render hv, run_bind_ok (run_ofExcept _ b),
    run_bind_ok (run_placeholder b)]
  rfl

theorem run_atPath (function : PathFunction) (path : String) :
    (atPath function target path).run b =
      (.ok ⟨pathSql (columnText b.options.qualify target) function (b.hole 0), [bound target path]⟩,
        b.issue 1) := by
  rw [atPath, run_bind_ok (run_column h), run_bind_ok (run_placeholder b)]
  rfl

theorem run_termComparison (hv : render value = .ok text) (path : String) (op : Comparison) :
    (termComparison target path op value).run b =
      (.ok ⟨termSql (columnText b.options.qualify target) op (b.hole 0) (b.hole 1),
        [bound target path, bound target text]⟩, b.issue 2) := by
  rw [termComparison, run_bind_ok (run_atPath h .term path), operand_of_render hv,
    run_bind_ok (run_ofExcept _ _), run_bind_ok (run_placeholder _), b.hole_issue, b.issue_issue]
  rfl

theorem run_orderBy_ok (direction : Direction) :
    (orderBy target direction).run b =
      (.ok (QueryMode.ore.sqlFunction ++ "(" ++ columnText b.options.qualify target ++ ") " ++
        direction.word), b) := by
  rw [orderBy, run_bind_ok (run_column h)]
  rfl

end

theorem run_comparison_error (h : isNameable b.options.qualify target = false) {α : Type}
    [Rendered α] (mode : QueryMode) (symbol : String) (value : α) :
    ∃ e, (comparison mode symbol target value).run b = (.error e, b) := by
  obtain ⟨e, hc⟩ := run_column_error h
  exact ⟨e, by rw [comparison, run_bind_error hc]⟩

theorem run_atPath_error (h : isNameable b.options.qualify target = false) (function : PathFunction)
    (path : String) : ∃ e, (atPath function target path).run b = (.error e, b) := by
  obtain ⟨e, hc⟩ := run_column_error h
  exact ⟨e, by rw [atPath, run_bind_error hc]⟩

theorem run_termComparison_error (h : isNameable b.options.qualify target = false) {α : Type}
    [Rendered α] (path : String) (op : Comparison) (value : α) :
    ∃ e, (termComparison target path op value).run b = (.error e, b) := by
  obtain ⟨e, hp⟩ := run_atPath_error h .term path
  exact ⟨e, by rw [termComparison, run_bind_error hp]⟩

theorem run_orderBy_error (h : isNameable b.options.qualify target = false) (direction : Direction) :
    ∃ e, (orderBy target direction).run b = (.error e, b) := by
  obtain ⟨e, hc⟩ := run_column_error h
  exact ⟨e, by rw [orderBy, run_bind_error hc]⟩

theorem run_orderBy (direction : Direction) : ((orderBy target direction).run b).2 = b := by
  cases h : isNameable b.options.qualify target with
  | true => rw [run_orderBy_ok h]
  | false =>
    obtain ⟨e, he⟩ := run_orderBy_error h direction
    rw [he]

end

end Build

namespace Predicate

variable {b : Builder} {k : Kind} {p : Predicate k.Carrier}

theorem run_build (h : isNameable b.options.qualify p.target = true) :
    p.build.run b =
      (.ok ⟨p.form.sql (columnText b.options.qualify p.target) b.hole, p.texts.map (bound p.target)⟩,
        b.issue p.form.arity) := by
  cases p with
  | matching target value => exact Build.run_comparison h rfl .matching "@>"
  | compare target op value => exact Build.run_comparison h rfl .ore op.symbol
  | equal target value => exact Build.run_comparison h rfl .unique "="
  | contains target value => exact Build.run_comparison h rfl .steVec "@>"
  | valueAt target path => exact Build.run_atPath h .value path
  | termsAt target path => exact Build.run_atPath h .terms path
  | compareTerm target path op value => exact Build.run_termComparison h rfl path op

theorem run_build_error (h : isNameable b.options.qualify p.target = false) :
    ∃ e, p.build.run b = (.error e, b) := by
  cases p with
  | matching target value => exact Build.run_comparison_error h _ _ _
  | compare target op value => exact Build.run_comparison_error h _ _ _
  | equal target value => exact Build.run_comparison_error h _ _ _
  | contains target value => exact Build.run_comparison_error h _ _ _
  | valueAt target path => exact Build.run_atPath_error h _ _
  | termsAt target path => exact Build.run_atPath_error h _ _
  | compareTerm target path op value => exact Build.run_termComparison_error h _ _ _

end Predicate

end EncryptedColumns.Sql
