import Asn1.Decimal
import Asn1.Octets.Hex
import Asn1.Value

/-!
# Object identifiers

An object identifier is a sequence of at least two arcs, each a 64-bit number. It is written as
content octets of an element or as dotted text; both have modules of their own.
-/

namespace Asn1

/-- An object identifier: two arcs and any number of further ones. -/
structure ObjectIdentifier where
  first : UInt64
  second : UInt64
  rest : List UInt64
  deriving Repr, DecidableEq

namespace ObjectIdentifier

/-- The arcs in order. -/
def arcs (oid : ObjectIdentifier) : List UInt64 :=
  oid.first :: oid.second :: oid.rest

/-- Why octets or text are not an object identifier, or one cannot be written as octets. -/
inductive Error where
  | noData
  | incompleteEncoding
  | arcOverflow
  | tooFewComponents
  | invalidFirstArcs (first second : UInt64)
  | invalidComponent (cause : Decimal.Error)
  | unexpectedIdentifier (identifier : Octets)
  deriving Repr, DecidableEq

/-- What an error says behind the name of the type. -/
def Error.detail : Error → String
  | .noData => "no data"
  | .incompleteEncoding => "incomplete encoding"
  | .arcOverflow => "arc exceeds 64 bits"
  | .tooFewComponents => "too few components (need at least 2)"
  | .invalidFirstArcs first second => s!"invalid first arcs {first.toNat}.{second.toNat}"
  | .invalidComponent cause => "invalid component: " ++ cause.message
  | .unexpectedIdentifier identifier => "expected tag 0x06, got " ++ Hex.bracketed identifier

/-- The sentence for an error. -/
def Error.message (error : Error) : String :=
  "OBJECT IDENTIFIER: " ++ error.detail

/-- The one-word name of an error. -/
def Error.name : Error → String
  | .noData => "NoData"
  | .incompleteEncoding => "IncompleteEncoding"
  | .arcOverflow => "ArcOverflow"
  | .tooFewComponents => "TooFewComponents"
  | .invalidFirstArcs _ _ => "InvalidFirstArcs"
  | .invalidComponent _ => "InvalidComponent"
  | .unexpectedIdentifier _ => "UnexpectedIdentifier"

theorem arcs_injective {o p : ObjectIdentifier} (h : o.arcs = p.arcs) : o = p := by
  cases o
  cases p
  simpa [arcs] using h

end ObjectIdentifier

end Asn1
