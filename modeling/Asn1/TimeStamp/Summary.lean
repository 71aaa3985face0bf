import Asn1.TimeStamp.Response

/-!
# Summaries of time-stamp responses

What a reader is shown of a response: the status, the texts, the failure reasons, and the size of
the token before and after conversion.
-/

namespace Asn1.TimeStamp

/-- The sizes of a token. -/
structure TokenSummary where
  receivedLength : Nat
  derLength : Nat
  /-- Whether the token was received in distinguished form. -/
  isCanonical : Bool
  deriving Repr, DecidableEq

/-- The summary of a response. -/
structure Summary where
  status : Status
  strings : List String
  failures : List FailureReason
  token : Option TokenSummary
  deriving Repr, DecidableEq

namespace TokenSummary

/-- The summary of a token as received and in distinguished form. -/
def ofOctets (received der : Octets) : TokenSummary :=
  ⟨received.length, der.length, received == der⟩

/-- The line for a token, without a line end. -/
def line (token : TokenSummary) : String :=
  let remark := if token.isCanonical then "" else " (re-encoded)"
  s!"Time-Stamp Token: {token.receivedLength} octets received, {token.derLength} octets DER{remark}"

/-- The JSON document of a token summary. -/
def toJson (token : TokenSummary) : Json :=
  .object [
    ("received_length", .number token.receivedLength),
    ("der_length", .number token.derLength),
    ("canonical", .bool token.isCanonical)]

end TokenSummary

namespace Summary

/-- The summary of a response whose token has the given distinguished form. -/
def ofCanonical (response : Response) (canonical : Option Octets) : Summary where
  status := response.status.status
  strings := response.status.strings
  failures := match response.status.failInfo with
    | none => []
    | some info => info.reasons
  token := match response.token, canonical with
    | some received, some der => some (.ofOctets received der)
    | _, _ => none

/-- The summary of a response, and the log records of converting its token. -/
def ofResponseWithLog (response : Response) : Except Error Summary × List Log.Record :=
  let (result, records) := response.canonicalTokenWithLog
  (result.map (ofCanonical response), records)

/-- The summary of a response. It needs the token to convert. -/
def ofResponse (response : Response) : Except Error Summary :=
  (ofResponseWithLog response).1

/-- The line for failure reasons, which is left out when there are none. -/
def failureLines : List FailureReason → List String
  | [] => []
  | reasons => ["Failure Info: " ++ String.intercalate ", " (reasons.map FailureReason.name)]

/-- The lines of a summary, without line ends. -/
def lines (summary : Summary) : List String :=
  ("Status: " ++ summary.status.text) ::
    (summary.strings.map ("Status String: " ++ ·) ++ failureLines summary.failures ++
      [match summary.token with
        | none => "Time-Stamp Token: absent"
        | some token => token.line])

/-- The text of a summary; each line has its end. -/
def text (summary : Summary) : String :=
  String.join (summary.lines.map (· ++ "\n"))

/-- The JSON document of a summary; the token is left out when there is none. -/
def toJson (summary : Summary) : Json :=
  .object ([
    ("status", .string summary.status.name),
    ("status_string", .array (summary.strings.map .string)),
    ("fail_info", .array (summary.failures.map fun reason => .string reason.name))] ++
    match summary.token with
    | none => []
    | some token => [("token", token.toJson)])

end Summary

end Asn1.TimeStamp
