import Asn1.ObjectIdentifier
import Asn1.TimeStamp.Error

/-!
# Failures of a command

Why a command could not do its work. `message` is a sentence for a reader, and `diagnostic` names
the cause with all that it holds.
-/

namespace Asn1

/-- What a decoding error is and holds. -/
def Ber.Error.diagnostic : Ber.Error → String
  | .nestingTooDeep limit => s!"NestingTooDeep \x7b limit: {limit} \x7d"
  | error => error.name

/-- What an error in a number is. -/
def Decimal.Error.diagnostic : Decimal.Error → String
  | .empty => "ParseIntError \x7b kind: Empty \x7d"
  | .invalidDigit => "ParseIntError \x7b kind: InvalidDigit \x7d"
  | .tooLarge => "ParseIntError \x7b kind: PosOverflow \x7d"

/-- Octets as a bracketed list of decimal numbers. -/
def Octets.diagnostic (octets : Octets) : String :=
  "[" ++ String.intercalate ", " (octets.map fun octet => toString octet.toNat) ++ "]"

/-- What an error about an object identifier is and holds. -/
def ObjectIdentifier.Error.diagnostic (error : ObjectIdentifier.Error) : String :=
  match error with
  | .invalidFirstArcs first second => s!"{error.name}({first.toNat}, {second.toNat})"
  | .invalidComponent cause => s!"{error.name}({cause.diagnostic})"
  | .unexpectedIdentifier identifier => error.name ++ "(" ++ Octets.diagnostic identifier ++ ")"
  | _ => error.name

/-- What an error about a time-stamp response is and holds. -/
def TimeStamp.Error.diagnostic (error : TimeStamp.Error) : String :=
  match error with
  | .ber cause => s!"{error.name}({cause.diagnostic})"
  | .missing field | .unexpectedElement field => error.name ++ "(\"" ++ field.name ++ "\")"
  | .unexpectedIdentifier field identifier =>
    error.name ++ " \x7b field: \"" ++ field.name ++ "\", identifier: " ++
      Octets.diagnostic identifier ++ " \x7d"
  | .unknownStatus code => s!"{error.name}({code})"
  | _ => error.name

namespace CommandLine

/-- Why an input could not be read: the system's code, its kind and its message. -/
structure ReadFailure where
  code : Nat
  kind : String
  message : String
  deriving Repr, DecidableEq

/-- There is no file of the name. -/
def ReadFailure.notFound : ReadFailure :=
  ⟨2, "NotFound", "No such file or directory"⟩

/-- The causes for which a command fails. -/
inductive Failure where
  | read (cause : ReadFailure)
  | decode (cause : Ber.Error)
  | objectIdentifier (cause : ObjectIdentifier.Error)
  | timeStamp (cause : TimeStamp.Error)
  deriving Repr, DecidableEq

namespace Failure

/-- The sentence for a failure. -/
def message : Failure → String
  | .read cause => s!"IO error: {cause.message} (os error {cause.code})"
  | .decode cause => "BER decode error: " ++ cause.message
  | .objectIdentifier cause => "OID error: " ++ cause.message
  | .timeStamp cause => "time-stamp response error: " ++ cause.message

/-- The one-word name of a failure. -/
def name : Failure → String
  | .read _ => "Io"
  | .decode _ => "Der"
  | .objectIdentifier _ => "Oid"
  | .timeStamp _ => "Timestamp"

/-- What a failure is and holds. -/
def diagnostic (failure : Failure) : String :=
  let detail := match failure with
    | .read cause =>
      s!"Os \x7b code: {cause.code}, kind: {cause.kind}, message: \"{cause.message}\" \x7d"
    | .decode cause => cause.diagnostic
    | .objectIdentifier cause => cause.diagnostic
    | .timeStamp cause => cause.diagnostic
  failure.name ++ "(" ++ detail ++ ")"

end Failure

end CommandLine

end Asn1
