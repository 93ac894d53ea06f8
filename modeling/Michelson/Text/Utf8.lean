/-!
# UTF-8

Texts as the bytes that they are stored and sent as.

## Main definitions

* `utf8`: the bytes of a text
* `ofUtf8?`: the text with the given bytes, if they are well formed
-/

namespace Michelson.Text

/-- The UTF-8 bytes of a text. -/
def utf8 (s : String) : List UInt8 := s.toList.flatMap String.utf8EncodeChar

/-- The text whose UTF-8 bytes these are, if they are well formed. -/
def ofUtf8? (bytes : List UInt8) : Option String := String.fromUTF8? bytes.toByteArray

@[simp] theorem utf8_empty : utf8 "" = [] := rfl

@[simp] theorem utf8_append (s t : String) : utf8 (s ++ t) = utf8 s ++ utf8 t := by
  simp [utf8]

theorem toByteArray_utf8 (s : String) : (utf8 s).toByteArray = s.toByteArray := by
  have h : (String.ofList s.toList).toByteArray = (utf8 s).toByteArray := rfl
  rw [← h, String.ofList_toList]

/-- A text is read back from its bytes. -/
@[simp] theorem ofUtf8?_utf8 (s : String) : ofUtf8? (utf8 s) = some s := by
  simp only [ofUtf8?, toByteArray_utf8, String.fromUTF8?, s.isValidUTF8, dif_pos]
  rfl

end Michelson.Text
