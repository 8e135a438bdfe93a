import EncryptedColumns.Text.Hidden

/-!
# Quoted text

Messages show a name or a payload between double quotes. A quote, a backslash
and the common controls are written with a backslash, and every other hidden
code point by its number, so the reader sees what is there.
-/

namespace EncryptedColumns.Text

private def showChar (c : Char) : String :=
  match c with
  | '\x00' => "\\0"
  | '\t' => "\\t"
  | '\n' => "\\n"
  | '\r' => "\\r"
  | '"' => "\\\""
  | '\\' => "\\\\"
  | c => if isHidden c then "\\u\x7b" ++ String.ofList (Nat.toDigits 16 c.toNat) ++ "\x7d" else c.toString

def quoted (s : String) : String :=
  "\"" ++ String.join (s.toList.map showChar) ++ "\""

end EncryptedColumns.Text
