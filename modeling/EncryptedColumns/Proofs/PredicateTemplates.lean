import EncryptedColumns.Proofs.PredicateRuns
import EncryptedColumns.Proofs.Templates

/-!
# Predicates as templates

With numbered placeholders, a predicate on a column with checked names makes the
fragment of its template, numbered from the counter on, and counts its operands.
-/

namespace EncryptedColumns.Sql

def envelope {k : Kind} (value : k.Carrier) (target : ColumnRef) : String :=
  (Envelope.wrap (k.write value) target.table target.column).write

section
variable (qualify : Bool) (target : ColumnRef)

def comparisonTemplate (function symbol value : String) : List Piece :=
  [.text (function ++ "(" ++ columnText qualify target ++ ") " ++ symbol ++ " " ++ function ++ "("),
    .operand value]

def pathTemplate (function : PathFunction) (path : String) : List Piece :=
  [.text (function.name ++ "(" ++ columnText qualify target ++ ", "),
    .operand (pathOperand path target.table target.column)]

def termTemplate (path : String) (op : Comparison) (value : String) : List Piece :=
  pathTemplate qualify target .term path ++
    [.text (" " ++ op.symbol ++ " " ++ PathFunction.term.name ++ "("), .operand value]

end

namespace Predicate

def template (qualify : Bool) {k : Kind} : Predicate k.Carrier → List Piece
  | .matching target value =>
    comparisonTemplate qualify target "cs_match_v1" "@>" (envelope value target)
  | .compare target op value =>
    comparisonTemplate qualify target "cs_ore_64_8_v1" op.symbol (envelope value target)
  | .equal target value =>
    comparisonTemplate qualify target "cs_unique_v1" "=" (envelope value target)
  | .contains target value =>
    comparisonTemplate qualify target "cs_ste_vec_v1" "@>" (envelope value target)
  | .valueAt target path => pathTemplate qualify target .value path
  | .termsAt target path => pathTemplate qualify target .terms path
  | .compareTerm target path op value =>
    termTemplate qualify target path op (envelope value target)

end Predicate

/-! ## The fixed text of templates -/

theorem digits?_of_mem_dotted {names : List String} : ∀ t ∈ dotted names, t.digits? = none := by
  fun_induction dotted names with
  | case1 => exact fun t ht => nomatch ht
  | case2 name => simp [Token.digits?]
  | case3 name names hne ih =>
    refine List.forall_mem_cons.2 ⟨rfl, List.forall_mem_cons.2 ⟨rfl, ih⟩⟩

theorem hasNoPlaceholder_of_isTable {name : String} (h : Identifier.isTable name = true) :
    HasNoPlaceholder name := by
  intro t ht
  rw [tokens_of_isTable h] at ht
  exact digits?_of_mem_dotted t ht

theorem hasNoPlaceholder_columnText {qualify : Bool} {target : ColumnRef}
    (h : isNameable qualify target = true) : HasNoPlaceholder (columnText qualify target) := by
  rw [isNameable, Bool.and_eq_true] at h
  have hcolumn : HasNoPlaceholder target.column := by
    intro t ht
    rw [tokens_of_isPlain h.1, List.mem_singleton] at ht
    rw [ht]
    rfl
  cases qualify with
  | false => exact hcolumn
  | true =>
    have hdot : IsFixed "." := ⟨by decide, by decide⟩
    exact hcolumn.append (hdot.append_left (hasNoPlaceholder_of_isTable h.2) (by decide))

theorem isFixed_call {function : String} (h : HasNoPlaceholder function) :
    IsFixed (function ++ "(") := by
  have hparen : IsFixed "(" := ⟨by decide, by decide⟩
  exact hparen.append_left h (by decide)

section
variable {qualify : Bool} {target : ColumnRef} (h : isNameable qualify target = true)
include h

theorem isFixed_comparisonTemplate {function symbol : String} (hf : HasNoPlaceholder function)
    (hs : HasNoPlaceholder symbol) (value : String) :
    ∀ p ∈ comparisonTemplate qualify target function symbol value, p.IsFixed := by
  have hclose : IsFixed ") " := ⟨by decide, by decide⟩
  have hblank : IsFixed " " := ⟨by decide, by decide⟩
  -- only names and symbols can run into what follows, and a blank or parenthesis follows them
  have hcolumn := hclose.append_left (hasNoPlaceholder_columnText h) (by decide)
  have hsymbol := hblank.append_left hs (by decide)
  have htext := (isFixed_call hf).append (hcolumn.append (hsymbol.append (isFixed_call hf)))
  simp only [← String.append_assoc] at htext
  exact List.forall_mem_cons.2 ⟨htext, List.forall_mem_singleton.2 trivial⟩

theorem isFixed_pathTemplate (function : PathFunction) (path : String) :
    ∀ p ∈ pathTemplate qualify target function path, p.IsFixed := by
  have hf : HasNoPlaceholder function.name := by cases function <;> decide
  have hcomma : IsFixed ", " := ⟨by decide, by decide⟩
  have hcolumn := hcomma.append_left (hasNoPlaceholder_columnText h) (by decide)
  have htext := (isFixed_call hf).append hcolumn
  simp only [← String.append_assoc] at htext
  exact List.forall_mem_cons.2 ⟨htext, List.forall_mem_singleton.2 trivial⟩

theorem isFixed_termTemplate (path : String) (op : Comparison) (value : String) :
    ∀ p ∈ termTemplate qualify target path op value, p.IsFixed := by
  have htext : IsFixed (" " ++ op.symbol ++ " " ++ PathFunction.term.name ++ "(") := by
    cases op <;> exact ⟨by decide, by decide⟩
  refine List.forall_mem_append.2 ⟨isFixed_pathTemplate h .term path, ?_⟩
  exact List.forall_mem_cons.2 ⟨htext, List.forall_mem_singleton.2 trivial⟩

end

theorem Predicate.isFixed_template {k : Kind} {p : Predicate k.Carrier} {qualify : Bool}
    (h : isNameable qualify p.target = true) : ∀ q ∈ p.template qualify, q.IsFixed := by
  have hsymbol (op : Comparison) : HasNoPlaceholder op.symbol := by cases op <;> decide
  cases p with
  | matching target value => exact isFixed_comparisonTemplate h (by decide) (by decide) _
  | compare target op value => exact isFixed_comparisonTemplate h (by decide) (hsymbol op) _
  | equal target value => exact isFixed_comparisonTemplate h (by decide) (by decide) _
  | contains target value => exact isFixed_comparisonTemplate h (by decide) (by decide) _
  | valueAt target path => exact isFixed_pathTemplate h .value path
  | termsAt target path => exact isFixed_pathTemplate h .terms path
  | compareTerm target path op value => exact isFixed_termTemplate h path op _

/-! ## What a predicate makes -/

/-- The fragment of a template whose first operand has the given number. -/
def Fragment.ofTemplate (n : Nat) (ps : List Piece) : Fragment :=
  ⟨numbered n ps, operands ps⟩

namespace Predicate

variable {b : Builder} {k : Kind} {p : Predicate k.Carrier}

theorem sql_form_eq_numbered (hn : b.options.placeholder = .numbered) (qualify : Bool) :
    p.form.sql (columnText qualify p.target) b.hole = numbered b.nextParam (p.template qualify) := by
  have hhole (i : Nat) : b.hole i = "$" ++ (b.nextParam + i).repr := by
    rw [Builder.hole, hn]
  cases p with
  | matching | compare | equal | contains =>
    simp only [form, sql, comparisonSql, hhole, template, comparisonTemplate, numbered,
      String.append_assoc, String.append_empty]
    rfl
  | valueAt | termsAt =>
    simp only [form, sql, pathSql, hhole, template, pathTemplate, numbered, String.append_assoc,
      String.append_empty]
    rfl
  | compareTerm =>
    simp only [form, sql, termSql, pathSql, hhole, template, termTemplate, pathTemplate, numbered,
      List.cons_append, List.nil_append, String.append_assoc, String.append_empty]
    rfl

theorem texts_eq_operands (qualify : Bool) :
    p.texts.map (bound p.target) = operands (p.template qualify) := by
  cases p <;> rfl

theorem arity_form_eq (qualify : Bool) : p.form.arity = (operands (p.template qualify)).length := by
  cases p <;> rfl

theorem run_build_numbered (hn : b.options.placeholder = .numbered)
    (h : isNameable b.options.qualify p.target = true) :
    p.build.run b = (.ok (.ofTemplate b.nextParam (p.template b.options.qualify)),
      b.advance (operands (p.template b.options.qualify)).length) := by
  rw [run_build h, sql_form_eq_numbered hn, texts_eq_operands, Builder.issue_of_numbered hn,
    arity_form_eq b.options.qualify]
  rfl

end Predicate

end EncryptedColumns.Sql
