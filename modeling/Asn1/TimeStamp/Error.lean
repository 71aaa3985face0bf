import Asn1.Ber.Error
import Asn1.Octets.Hex

/-!
# Errors of time-stamp responses

Why octets are not a time-stamp response. Errors about a member name the field it should be.
-/

namespace Asn1.TimeStamp

/-- The fields of a response that an error can be about. -/
inductive Field where
  | timeStampResp
  | pkiStatusInfo
  | pkiStatus
  | pkiFreeText
  | timeStampToken
  deriving Repr, DecidableEq

/-- The name of a field. -/
def Field.name : Field → String
  | .timeStampResp => "TimeStampResp"
  | .pkiStatusInfo => "PKIStatusInfo"
  | .pkiStatus => "PKIStatus"
  | .pkiFreeText => "PKIFreeText"
  | .timeStampToken => "TimeStampToken"

/-- The causes for which a response is refused. -/
inductive Error where
  /-- The octets are refused before their meaning is looked at. -/
  | ber (error : Ber.Error)
  | missing (field : Field)
  | unexpectedIdentifier (field : Field) (identifier : Octets)
  /-- Octets follow the last member of a field. -/
  | unexpectedElement (field : Field)
  | invalidInteger
  | unknownStatus (code : Int)
  | invalidUtf8
  | invalidBitString
  deriving Repr, DecidableEq

namespace Error

/-- The sentence for an error. -/
def message : Error → String
  | .ber error => "invalid BER: " ++ error.message
  | .missing field => field.name ++ ": missing"
  | .unexpectedIdentifier field identifier =>
    field.name ++ ": unexpected identifier " ++ Hex.bracketed identifier
  | .unexpectedElement field => field.name ++ ": unexpected trailing element"
  | .invalidInteger => "INTEGER: invalid encoding"
  | .unknownStatus code => s!"PKIStatus: unknown value {code}"
  | .invalidUtf8 => "UTF8String: invalid UTF-8"
  | .invalidBitString => "BIT STRING: invalid encoding"

/-- The one-word name of an error. -/
def name : Error → String
  | .ber _ => "Der"
  | .missing _ => "Missing"
  | .unexpectedIdentifier _ _ => "UnexpectedIdentifier"
  | .unexpectedElement _ => "UnexpectedElement"
  | .invalidInteger => "InvalidInteger"
  | .unknownStatus _ => "UnknownStatus"
  | .invalidUtf8 => "InvalidUtf8"
  | .invalidBitString => "InvalidBitString"

end Error

end Asn1.TimeStamp
