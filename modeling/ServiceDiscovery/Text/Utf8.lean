/-!
# UTF-8

Stored values are raw bytes; texts enter and leave them as UTF-8.

Main results:

- Theorem {lit}`Text.ofUtf8?_utf8`: a text is read back from its own bytes.
-/

namespace ServiceDiscovery

/-- Raw bytes, as the store keeps them. -/
abbrev Bytes := List UInt8

namespace Text

/-- The bytes of a text. -/
def utf8 (s : String) : Bytes :=
  s.toList.flatMap String.utf8EncodeChar

/-- The text that the bytes encode, if they are well-formed UTF-8. -/
def ofUtf8? (bytes : Bytes) : Option String :=
  String.fromUTF8? bytes.toByteArray

@[simp]
theorem utf8_append (s t : String) : utf8 (s ++ t) = utf8 s ++ utf8 t := by
  simp [utf8]

/-- A text is read back from its own bytes. -/
theorem ofUtf8?_utf8 (s : String) : ofUtf8? (utf8 s) = some s := by
  have hbytes : (utf8 s).toByteArray = s.toByteArray := by
    rw [utf8, ← List.utf8Encode, String.utf8Encode_toList]
  simp [ofUtf8?, String.fromUTF8?, hbytes, String.fromUTF8, s.isValidUTF8]

end Text
end ServiceDiscovery
