import EncryptedColumns.Envelope

/-!
# Payloads

What comes back from the proxy: bytes that should hold a JSON object with the
plaintext in one of its fields. Everything else in the object is left alone.
-/

namespace EncryptedColumns.Payload

def fields (data : Bytes) : Except Refusal Object :=
  match Json.parse data with
  | .error e => .error (.malformedEnvelope (.json e))
  | .ok (.object o) => .ok o
  | .ok _ => .error (.malformedEnvelope .notAnObject)

def plaintext (data : Bytes) : Except Refusal String := do
  match (← fields data).find? "p" with
  | some (.string p) => return p
  | _ => throw .missingPlaintext

def tag (data : Bytes) : Except Refusal (Option Tag) := do
  return ((← fields data).find? "k").bind fun j => j.string?.bind Tag.ofName?

def decode (α : Type) [Plaintext α] (data : Bytes) : Except Refusal α := do
  Plaintext.parse (← plaintext data)

def decodeAs (data : Bytes) (kind : Kind) : Except Refusal PlainValue := do
  PlainValue.parse kind (← plaintext data)

/-! ## Looking into a parsed payload -/

private def tagged (payload : Json) (tag : Tag) (key : String) : Option String :=
  if (payload.field? "k").bind Json.string? = some tag.name then
    (payload.field? key).bind Json.string?
  else none

def plaintextOf (payload : Json) : Option String :=
  tagged payload .plaintext "p"

def ciphertextOf (payload : Json) : Option String :=
  tagged payload .ciphertext "c"

private theorem tagged_eq_some_iff {payload : Json} {tag : Tag} {key text : String} :
    tagged payload tag key = some text ↔
      (payload.field? "k").bind Json.string? = some tag.name ∧
        (payload.field? key).bind Json.string? = some text := by
  rw [tagged, Option.ite_none_right_eq_some]

theorem plaintextOf_eq_some_iff {payload : Json} {p : String} :
    plaintextOf payload = some p ↔
      (payload.field? "k").bind Json.string? = some Tag.plaintext.name ∧
        (payload.field? "p").bind Json.string? = some p :=
  tagged_eq_some_iff

theorem ciphertextOf_eq_some_iff {payload : Json} {c : String} :
    ciphertextOf payload = some c ↔
      (payload.field? "k").bind Json.string? = some Tag.ciphertext.name ∧
        (payload.field? "c").bind Json.string? = some c :=
  tagged_eq_some_iff

end EncryptedColumns.Payload
