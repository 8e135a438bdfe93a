import EncryptedColumns.Sql.Fragment

/-!
# Predicates

The comparisons that the proxy understands, as fragments. Only checked names and
fixed words become SQL text; paths and values travel as parameters.
-/

namespace EncryptedColumns.Sql

inductive Comparison where
  | lt
  | le
  | eq
  | ne
  | ge
  | gt
  deriving DecidableEq

def Comparison.symbol : Comparison → String
  | .lt => "<"
  | .le => "<="
  | .eq => "="
  | .ne => "<>"
  | .ge => ">="
  | .gt => ">"

inductive Direction where
  | ascending
  | descending
  deriving DecidableEq

def Direction.word : Direction → String
  | .ascending => "ASC"
  | .descending => "DESC"

inductive PathFunction where
  | value
  | term
  | terms
  deriving DecidableEq

def PathFunction.name : PathFunction → String
  | .value => "cs_ste_vec_value_v1"
  | .term => "cs_ste_vec_term_v1"
  | .terms => "cs_ste_vec_terms_v1"

namespace Build

def comparison {α : Type} [Rendered α] (mode : QueryMode) (symbol : String) (target : ColumnRef)
    (value : α) : Build Fragment := do
  let column ← column target
  let envelope ← ofExcept (operand value target.table target.column mode)
  let hole ← placeholder
  let function := mode.sqlFunction
  return ⟨function ++ "(" ++ column ++ ") " ++ symbol ++ " " ++ function ++ "(" ++ hole ++ ")",
    [envelope]⟩

def atPath (function : PathFunction) (target : ColumnRef) (path : String) : Build Fragment := do
  let column ← column target
  let hole ← placeholder
  return ⟨function.name ++ "(" ++ column ++ ", " ++ hole ++ ")",
    [pathOperand path target.table target.column]⟩

/-- The path takes its placeholder before the value is rendered. -/
def termComparison {α : Type} [Rendered α] (target : ColumnRef) (path : String) (op : Comparison)
    (value : α) : Build Fragment := do
  let term ← atPath .term target path
  let envelope ← ofExcept (operand value target.table target.column .steVec)
  let hole ← placeholder
  return ⟨term.sql ++ " " ++ op.symbol ++ " " ++ PathFunction.term.name ++ "(" ++ hole ++ ")",
    term.params ++ [envelope]⟩

def orderBy (target : ColumnRef) (direction : Direction) : Build String := do
  let column ← column target
  return QueryMode.ore.sqlFunction ++ "(" ++ column ++ ") " ++ direction.word

end Build

/-! ## Predicates as data -/

inductive Predicate (α : Type) where
  | matching (target : ColumnRef) (value : α)
  | compare (target : ColumnRef) (op : Comparison) (value : α)
  | equal (target : ColumnRef) (value : α)
  | contains (target : ColumnRef) (value : α)
  | valueAt (target : ColumnRef) (path : String)
  | termsAt (target : ColumnRef) (path : String)
  | compareTerm (target : ColumnRef) (path : String) (op : Comparison) (value : α)

def Predicate.build {α : Type} [Rendered α] : Predicate α → Build Fragment
  | .matching target value => Build.comparison .matching "@>" target value
  | .compare target op value => Build.comparison .ore op.symbol target value
  | .equal target value => Build.comparison .unique "=" target value
  | .contains target value => Build.comparison .steVec "@>" target value
  | .valueAt target path => Build.atPath .value target path
  | .termsAt target path => Build.atPath .terms target path
  | .compareTerm target path op value => Build.termComparison target path op value

end EncryptedColumns.Sql
