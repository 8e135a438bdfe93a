/-!
# Texts as bytes

Payloads reach the library as bytes that need not be text. A text is written as
its UTF-8 bytes, and bytes are read as the text they write, if they do.
-/

namespace EncryptedColumns

abbrev Bytes := List UInt8

namespace Bytes

def ofString (s : String) : Bytes :=
  s.toByteArray.data.toList

def text? (bs : Bytes) : Option String :=
  String.fromUTF8? ⟨bs.toArray⟩

@[simp] theorem text?_ofString (s : String) : text? (ofString s) = some s := by
  have h : (⟨(ofString s).toArray⟩ : ByteArray) = s.toByteArray := by simp [ofString]
  rw [text?, h]
  exact dif_pos s.isValidUTF8

theorem ofString_append (s t : String) : ofString (s ++ t) = ofString s ++ ofString t := by
  simp [ofString]

end Bytes

end EncryptedColumns
