import Asn1.Octets

/-!
# UTF-8

Text as octets in UTF-8. Decoding refuses octets that are no encoding of a text.
-/

namespace Asn1.Utf8

/-- The octets of a text. -/
def encode (text : String) : Octets :=
  text.toByteArray.data.toList

/-- The text of octets, if they are one. -/
def decode? (octets : Octets) : Option String :=
  String.fromUTF8? ⟨octets.toArray⟩

theorem decode?_encode (text : String) : decode? (encode text) = some text := by
  have h : (⟨(encode text).toArray⟩ : ByteArray) = text.toByteArray := by simp [encode]
  simp only [decode?, h, String.fromUTF8?]
  rw [dif_pos text.isValidUTF8]
  rfl

theorem encode_of_decode? {octets : Octets} {text : String} (h : decode? octets = some text) :
    encode text = octets := by
  simp only [decode?, String.fromUTF8?] at h
  split at h
  · simp only [Option.some.injEq] at h
    rw [← h, encode]
    rfl
  · simp at h

end Asn1.Utf8
