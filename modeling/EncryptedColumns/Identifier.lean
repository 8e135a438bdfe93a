/-!
# Identifiers

Names that may stand in SQL text as they are. A column has a plain identifier;
a table may have a second one in front, for its schema, with a dot between them.
-/

namespace EncryptedColumns.Identifier

def isInitial (c : Char) : Bool :=
  c.isAlpha || c == '_'

def isSubsequent (c : Char) : Bool :=
  c.isAlphanum || c == '_' || c == '$'

/-- A letter or underscore, then letters, digits, underscores and dollar signs, all
of them ASCII. -/
def isPlain : List Char → Bool
  | [] => false
  | c :: cs => isInitial c && cs.all isSubsequent

def isColumn (name : String) : Bool :=
  isPlain name.toList

/-- No identifier holds a dot, so a schema ends at the first one. -/
def isTable (name : String) : Bool :=
  match name.toList.span (· != '.') with
  | (schema, _ :: table) => isPlain schema && isPlain table
  | (table, []) => isPlain table

end EncryptedColumns.Identifier
