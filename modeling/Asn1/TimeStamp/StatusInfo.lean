import Asn1.Integer
import Asn1.Json
import Asn1.Octets.Utf8
import Asn1.TimeStamp.FailureInfo
import Asn1.TimeStamp.Member
import Asn1.TimeStamp.Status
import Asn1.Value

/-!
# Status information

The first member of a time-stamp response: a status, texts for a reader, and the reasons of a
failure. The texts and the reasons may be absent; which of them comes next is told by the next
octet. No texts are written as an absent member, so reading an empty one and writing it back drops
it.
-/

namespace Asn1.TimeStamp

/-- The status, the texts and the failure reasons of a response. -/
structure StatusInfo where
  status : Status
  strings : List String
  failInfo : Option FailureInfo
  deriving Repr, DecidableEq

namespace StatusInfo

/-- The information that holds a status only. -/
def ofStatus (status : Status) : StatusInfo :=
  ⟨status, [], none⟩

/-- Reads texts up to the end of a window. -/
def readStrings (window : Ber.Window) : Except Error (List String) :=
  if window.isExhausted then
    .ok []
  else
    match _h : expectMember window utf8StringTag .pkiFreeText with
    | .error error => .error error
    | .ok (element, window') =>
      match Utf8.decode? element.content with
      | none => .error .invalidUtf8
      | some string =>
        match readStrings window' with
        | .error error => .error error
        | .ok strings => .ok (string :: strings)
termination_by window.remaining.length
decreasing_by exact length_remaining_of_expectMember ‹_›

/-- Reads the status. -/
def readStatus (window : Ber.Window) : Except Error (Status × Ber.Window) := do
  let (element, window) ← expectMember window integerTag .pkiStatus
  match Integer.decode? element.content with
  | none => throw .invalidInteger
  | some code =>
    match Status.ofCode? code.toInt with
    | none => throw (.unknownStatus code.toInt)
    | some status => return (status, window)

/-- Reads the texts, if they come next. -/
def readTexts (window : Ber.Window) : Except Error (List String × Ber.Window) :=
  if startsWith window sequenceTag then do
    let (element, window) ← readMember window
    let strings ← readStrings element.inside
    return (strings, window)
  else
    .ok ([], window)

/-- Reads the failure reasons, if they come next. -/
def readFailInfo (window : Ber.Window) : Except Error (Option FailureInfo × Ber.Window) :=
  if startsWith window bitStringTag then do
    let (element, window) ← readMember window
    match FailureInfo.ofContent? element.content with
    | none => throw .invalidBitString
    | some info => return (some info, window)
  else
    .ok (none, window)

/-- Reads status information from a window over its content octets. -/
def read (window : Ber.Window) : Except Error StatusInfo := do
  let (status, window) ← readStatus window
  let (strings, window) ← readTexts window
  let (failInfo, window) ← readFailInfo window
  if window.isExhausted then
    return ⟨status, strings, failInfo⟩
  else
    throw (.unexpectedElement .pkiStatusInfo)

/-- The value of status information. -/
def toValue (info : StatusInfo) : Value :=
  let status := Value.primitive [integerTag] (Integer.encode (Int64.ofNat info.status.code))
  let texts := if info.strings.isEmpty then [] else
    [Value.constructed [sequenceTag]
      (info.strings.map fun string => .primitive [utf8StringTag] (Utf8.encode string))]
  let failure := match info.failInfo with
    | none => []
    | some failInfo => [Value.primitive [bitStringTag] failInfo.content]
  .constructed [sequenceTag] (status :: texts ++ failure)

/-- The JSON document of status information. -/
def toJson (info : StatusInfo) : Json :=
  .object [
    ("status", .string info.status.name),
    ("status_string", .array (info.strings.map .string)),
    ("fail_info", match info.failInfo with
      | none => .null
      | some failInfo => .array (failInfo.reasons.map fun reason => .string reason.name))]

end StatusInfo

end Asn1.TimeStamp
