import EncryptedColumns.Envelope

/-!
# SQL fragments

A fragment is SQL text with placeholders and the envelopes that are bound to them,
in order. One builder makes the fragments of a statement and counts placeholders
across them. A step that fails keeps whatever it has counted by then.
-/

namespace EncryptedColumns.Sql

inductive Placeholder where
  | numbered
  | positional
  deriving DecidableEq

/-- How fragments are rendered. The first number matters to numbered placeholders only. -/
structure Options where
  placeholder : Placeholder := .numbered
  firstParam : Nat := 1
  qualify : Bool := false
  deriving DecidableEq

structure Fragment where
  sql : String
  params : List String
  deriving DecidableEq

/-- Both must hold. The parameters of the first come first. -/
def Fragment.and (a b : Fragment) : Fragment :=
  ⟨a.sql ++ " AND " ++ b.sql, a.params ++ b.params⟩

structure Builder where
  options : Options
  /-- The number of the next placeholder. It does not overflow here, so what is proved of a run holds of
  a counter in a machine word if the run counts no further than the greatest word, `2 ^ 64 - 1`. -/
  nextParam : Nat
  deriving DecidableEq

def Builder.start (options : Options) : Builder :=
  ⟨options, options.firstParam⟩

abbrev Build := ExceptT Refusal (StateM Builder)

namespace Build

def run {α : Type} (step : Build α) (b : Builder) : Except Refusal α × Builder :=
  StateT.run (ExceptT.run step) b

def placeholder : Build String := do
  let b ← get
  match b.options.placeholder with
  | .numbered =>
    set { b with nextParam := b.nextParam + 1 }
    return "$" ++ b.nextParam.repr
  | .positional => return "?"

def column (target : ColumnRef) : Build String := do
  ofExcept (checkColumn target.column)
  if (← get).options.qualify then
    ofExcept (checkTable target.table)
    return target.table ++ "." ++ target.column
  else return target.column

end Build

end EncryptedColumns.Sql
