import EncryptedColumns.Json.Fault

/-!
# Writing values

Values are written without blanks, fields in the order they stand in. A string
escapes the quote, the backslash and the control characters and nothing else.
-/

namespace EncryptedColumns.Json

def hexDigit (n : Nat) : Char :=
  if n < 10 then Char.ofNat ('0'.toNat + n) else Char.ofNat ('a'.toNat + (n - 10))

def escapeChar (c : Char) : List Char :=
  match c with
  | '"' => ['\\', '"']
  | '\\' => ['\\', '\\']
  | '\x08' => ['\\', 'b']
  | '\x0c' => ['\\', 'f']
  | '\n' => ['\\', 'n']
  | '\r' => ['\\', 'r']
  | '\t' => ['\\', 't']
  | c =>
    if c.toNat < 0x20 then ['\\', 'u', '0', '0', hexDigit (c.toNat / 16), hexDigit (c.toNat % 16)]
    else [c]

def literal (s : String) : String :=
  "\"" ++ String.ofList (s.toList.flatMap escapeChar) ++ "\""

def Number.text : Number → String
  | .whole n _ => n.repr
  | .float x => floatLayout.write x

def separated : List String → String
  | [] => ""
  | [s] => s
  | s :: ss => s ++ "," ++ separated ss

mutual

def compact : Json → String
  | .null => "null"
  | .bool b => if b then "true" else "false"
  | .number n => Number.text n
  | .string s => literal s
  | .array items => "[" ++ separated (compactItems items) ++ "]"
  | .object fields => "\x7b" ++ separated (compactFields fields) ++ "\x7d"

def compactItems : List Json → List String
  | [] => []
  | j :: js => compact j :: compactItems js

def compactFields : List (String × Json) → List String
  | [] => []
  | (key, j) :: fs => (literal key ++ ":" ++ compact j) :: compactFields fs

end

end EncryptedColumns.Json
