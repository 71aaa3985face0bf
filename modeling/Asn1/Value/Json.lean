import Asn1.Json
import Asn1.Value

/-!
# Values as JSON

A value is shown as an object with its identifier in hexadecimal, whether it is constructed, the
length of its content, and then either the content in hexadecimal or the array of its children.
-/

namespace Asn1.Value

mutual

/-- The JSON document of a value. -/
def toJson : Value → Json
  | .primitive identifier content =>
    .object [
      ("identifier", .string (Hex.text identifier)),
      ("constructed", .bool false),
      ("length", .number content.length),
      ("content", .string (Hex.text content))]
  | .node identifier children contentLength =>
    .object [
      ("identifier", .string (Hex.text identifier)),
      ("constructed", .bool true),
      ("length", .number contentLength),
      ("children", .array (toJsonAll children))]

/-- The JSON documents of several values. -/
def toJsonAll : List Value → List Json
  | [] => []
  | value :: values => value.toJson :: toJsonAll values

end

end Asn1.Value
