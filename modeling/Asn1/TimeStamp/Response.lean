import Asn1.Converter
import Asn1.TimeStamp.StatusInfo

/-!
# Time-stamp responses

A response holds status information and, where one was granted, a token. The token is kept as its
octets were received and is not looked into; `canonicalToken` is its distinguished encoding, over
which a signature is verified, and `toDer` writes the response with that form of the token.
-/

namespace Asn1.TimeStamp

/-- A response and its token as received. -/
structure Response where
  status : StatusInfo
  token : Option Octets
  deriving Repr, DecidableEq

namespace Response

/-- Reads the token, if anything follows the status. -/
def readToken (window : Ber.Window) : Except Error (Option Octets × Ber.Window) :=
  if window.isExhausted then
    .ok (none, window)
  else do
    let (element, window) ← expectMember window sequenceTag .timeStampToken
    return (some element.raw, window)

/-- Reads the members of a response from a window over its content octets. -/
def readMembers (window : Ber.Window) : Except Error Response := do
  let (info, window) ← expectMember window sequenceTag .pkiStatusInfo
  let status ← StatusInfo.read info.inside
  let (token, window) ← readToken window
  if window.isExhausted then
    return ⟨status, token⟩
  else
    throw (.unexpectedElement .timeStampResp)

/-- Reads the response that makes up the input. -/
def ofBer (input : Octets) : Except Error Response := do
  let (element, window) ← (Ber.Element.read (.ofOctets input)).mapError .ber
  checkIdentifier element sequenceTag .timeStampResp
  if window.isExhausted then
    readMembers element.inside
  else
    throw (.ber .trailingData)

/-- What is reported of a response that was read. -/
def record (response : Response) : Log.Record :=
  let presence := if response.token.isSome then "present" else "absent"
  ⟨.debug, "timestamp",
    s!"parsed time-stamp response: status {response.status.status.text}, token {presence}"⟩

/-- Reads a response, and the log records of reading it. -/
def ofBerWithLog (input : Octets) : Except Error Response × List Log.Record :=
  match ofBer input with
  | .error error => (.error error, [])
  | .ok response => (.ok response, [response.record])

/-- The value of a response whose token decodes to a given value. -/
def toValue (response : Response) (token : Option Value) : Value :=
  .constructed [sequenceTag] (response.status.toValue :: token.toList)

/-- Encodes the response with its token in distinguished form, and the log records of that. -/
def toDerWithLog (response : Response) : Except Error Octets × List Log.Record :=
  match response.token with
  | none => (.ok (response.toValue none).toDer, [])
  | some token =>
    let (result, events) := Converter.default.decodeWithEvents token
    match result with
    | .error error => (.error (.ber error), events.map Ber.Event.record)
    | .ok value => (.ok (response.toValue (some value)).toDer, events.map Ber.Event.record)

/-- The distinguished encoding of the response. -/
def toDer (response : Response) : Except Error Octets :=
  response.toDerWithLog.1

/-- The token in distinguished form, and the log records of converting it. -/
def canonicalTokenWithLog (response : Response) :
    Except Error (Option Octets) × List Log.Record :=
  match response.token with
  | none => (.ok none, [])
  | some token =>
    let (result, events) := Converter.default.convertWithEvents token
    match result with
    | .error error => (.error (.ber error), events.map Ber.Event.record)
    | .ok der => (.ok (some der), events.map Ber.Event.record)

/-- The token in distinguished form, if the response has one. -/
def canonicalToken (response : Response) : Except Error (Option Octets) :=
  response.canonicalTokenWithLog.1

end Response

end Asn1.TimeStamp
