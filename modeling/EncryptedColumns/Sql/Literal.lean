/-!
# SQL string literals

A literal stands between single quotes, and a quote inside it is written twice.
-/

namespace EncryptedColumns.Sql

def literalBody (s : String) : List Char :=
  s.toList.flatMap fun c => if c = '\'' then ['\'', '\''] else [c]

def literal (s : String) : String :=
  String.ofList ('\'' :: literalBody s ++ ['\''])

end EncryptedColumns.Sql
