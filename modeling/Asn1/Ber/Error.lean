/-!
# Decoding errors

Why octets are refused. An error names the structural fact only and never carries octets of the
input. `message` is the sentence shown to a reader.
-/

namespace Asn1.Ber

/-- The causes for which decoding stops. -/
inductive Error where
  /-- The input ends inside an element. -/
  | earlyEof
  /-- Octets follow the outermost element. -/
  | trailingData
  /-- The length octet announces the indefinite form. -/
  | indefiniteLength
  /-- The length is spread over more octets than are supported. -/
  | unsupportedLength
  /-- An inner element is longer than the element around it. -/
  | lengthMismatch
  /-- More constructed elements are nested than the limit allows. -/
  | nestingTooDeep (limit : Nat)
  /-- The bounds of a slice do not lie in its window. -/
  | invalidSlice
  /-- A cursor position does not lie in its window. -/
  | invalidOffset
  deriving Repr, DecidableEq

namespace Error

/-- The sentence for an error. -/
def message : Error → String
  | .earlyEof => "early EOF"
  | .trailingData => "trailing data"
  | .indefiniteLength => "indefinite length not supported"
  | .unsupportedLength => "length method not supported"
  | .lengthMismatch => "invalid BER data: declared length does not match content"
  | .nestingTooDeep limit => s!"nesting exceeds maximum depth of {limit}"
  | .invalidSlice => "invalid slice"
  | .invalidOffset => "invalid offset"

/-- The one-word name of an error. -/
def name : Error → String
  | .earlyEof => "EarlyEof"
  | .trailingData => "TrailingData"
  | .indefiniteLength => "UnsupportedIndefiniteLength"
  | .unsupportedLength => "UnsupportedLength"
  | .lengthMismatch => "InvalidStructuralData"
  | .nestingTooDeep _ => "NestingTooDeep"
  | .invalidSlice => "InvalidSlice"
  | .invalidOffset => "InvalidOffset"

end Error

/-- An element that ends early inside another one is longer than the element around it; every
other error means the same inside an element as outside. -/
def Error.within : Error → Error
  | .earlyEof => .lengthMismatch
  | error => error

end Asn1.Ber
