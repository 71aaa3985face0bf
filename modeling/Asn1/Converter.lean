import Asn1.Value.Decode
import Asn1.Value.Encode

/-!
# Conversion

A converter turns the encoding of an element under the basic rules into the one under the
distinguished rules: it decodes the element and encodes the value again. Only length octets can
change.
-/

namespace Asn1

/-- A converter and its limit on nested constructed values. -/
structure Converter where
  maxDepth : Nat := 64
  maxDepth_le : maxDepth ≤ Value.depthCap := by decide
  deriving DecidableEq

namespace Converter

/-- The converter with the limit that is used when none is asked for. -/
def default : Converter := {}

instance : Inhabited Converter := ⟨default⟩

/-- The converter whose limit is `limit`, or the cap where the limit is above it. -/
def withMaxDepth (limit : Nat) : Converter :=
  ⟨min limit Value.depthCap, Nat.min_le_right _ _⟩

/-- Decodes an element, and tells the events on the way. -/
def decodeWithEvents (converter : Converter) (ber : Octets) :
    Except Ber.Error Value × List Ber.Event :=
  Value.decodeWithEvents ber converter.maxDepth

/-- Decodes an element into its value. -/
def decode (converter : Converter) (ber : Octets) : Except Ber.Error Value :=
  (converter.decodeWithEvents ber).1

/-- Converts an element, and tells the events on the way. A success ends with the two sizes. -/
def convertWithEvents (converter : Converter) (ber : Octets) :
    Except Ber.Error Octets × List Ber.Event :=
  match converter.decodeWithEvents ber with
  | (.error error, events) => (.error error, events)
  | (.ok value, events) =>
    let der := value.toDer
    (.ok der, events ++ [.canonicalized ber.length der.length])

/-- Converts an element to its distinguished encoding. -/
def convert (converter : Converter) (ber : Octets) : Except Ber.Error Octets :=
  (converter.convertWithEvents ber).1

end Converter

end Asn1
