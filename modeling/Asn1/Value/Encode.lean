import Asn1.Value

/-!
# Encoding values

The distinguished encoding of a value is its identifier, the shortest length octets and its
content; the content of a constructed value is the encodings of its children in order. `write`
appends the encoding to a buffer, and `encode` is the octet string it appends. Main statement:
`toList_write`.
-/

namespace Asn1.Value

mutual

/-- Appends the encoding of a value to a buffer. -/
def write : Array UInt8 → Value → Array UInt8
  | out, .primitive identifier content =>
    Ber.Length.write (out ++ identifier) content.length ++ content
  | out, .node identifier children contentLength =>
    writeAll (Ber.Length.write (out ++ identifier) contentLength) children

/-- Appends the encodings of several values in order. -/
def writeAll : Array UInt8 → List Value → Array UInt8
  | out, [] => out
  | out, value :: values => writeAll (write out value) values

end

/-- The octets of a value, written into an empty buffer. -/
def toDer (value : Value) : Octets :=
  (value.write #[]).toList

mutual

/-- The encoding of a value: identifier, length and content. -/
def encode : Value → Octets
  | .primitive identifier content =>
    identifier ++ Ber.Length.encode content.length ++ content
  | .node identifier children contentLength =>
    identifier ++ Ber.Length.encode contentLength ++ encodeAll children

/-- The encodings of several values one after the other. -/
def encodeAll : List Value → Octets
  | [] => []
  | value :: values => value.encode ++ encodeAll values

end

mutual

/-- Writing a value appends its encoding and leaves the octets before it alone. -/
theorem toList_write (out : Array UInt8) :
    (value : Value) → (value.write out).toList = out.toList ++ value.encode
  | .primitive identifier content => by simp [write, encode]
  | .node identifier children contentLength => by
    simp [write, encode, toList_writeAll _ children]

/-- Writing several values appends their encodings in order. -/
theorem toList_writeAll (out : Array UInt8) :
    (values : List Value) → (writeAll out values).toList = out.toList ++ encodeAll values
  | [] => by simp [writeAll, encodeAll]
  | value :: values => by
    simp [writeAll, encodeAll, toList_writeAll _ values, toList_write _ value]

end

@[simp] theorem toDer_eq_encode (value : Value) : value.toDer = value.encode := by
  simp [toDer, toList_write]

end Asn1.Value
