import Asn1.CommandLine.Arguments
import Asn1.CommandLine.Failure
import Asn1.ObjectIdentifier.Dotted
import Asn1.Octets.Hex.Dump
import Asn1.SignatureAlgorithm
import Asn1.TimeStamp.Summary
import Asn1.Value.Json
import Asn1.Value.Listing

/-!
# Running commands

What each command writes for its input. A command that succeeds ends with code 0 and writes
nothing on the error channel; one that fails ends with code 1 and writes the diagnostic of the
failure there, and nothing else.
-/

namespace Asn1.CommandLine

/-- Where a command reads its input. -/
inductive Source where
  | nothing
  | standardInput
  | file (path : String)
  deriving Repr, DecidableEq

/-- The source of an optional file operand. -/
def Source.ofFile : Option String → Source
  | none => .standardInput
  | some path => .file path

/-- The source of a command's input. -/
def Command.source : Command → Source
  | .convert file _ _ => .ofFile file
  | .dump file _ _ => .ofFile file
  | .timestamp file _ => .ofFile file
  | .oid _ _ => .nothing

/-- What `convert` writes: the encoding itself, or its hexadecimal dump. -/
def converted (hex : Bool) (maxDepth : Nat) (input : Octets) : Except Failure Octets := do
  let der ← ((Converter.withMaxDepth maxDepth).convert input).mapError .decode
  return if hex then Utf8.encode (Hex.dump der) else der

/-- What `dump` writes: the listing of the value, or its JSON document and a line end. -/
def dumpText (maxDepth : Nat) (output : OutputFormat) (input : Octets) : Except Failure String := do
  let value ← ((Converter.withMaxDepth maxDepth).decode input).mapError .decode
  return match output with
    | .text => value.listing
    | .json => value.toJson.pretty ++ "\n"

/-- What `timestamp` writes: the summary of the response as text, or its JSON document and a line
end. -/
def timestampText (output : OutputFormat) (input : Octets) : Except Failure String := do
  let response ← (TimeStamp.Response.ofBer input).mapError .timeStamp
  let summary ← (TimeStamp.Summary.ofResponse response).mapError .timeStamp
  return match output with
    | .text => summary.text
    | .json => summary.toJson.pretty ++ "\n"

/-- What `oid` writes: the signature scheme of two object identifiers. The first offence is told. -/
def oidText (digest signature : String) : Except Failure String := do
  let digest ← (ObjectIdentifier.ofText digest).mapError .objectIdentifier
  let signature ← (ObjectIdentifier.ofText signature).mapError .objectIdentifier
  return (SignatureAlgorithm.resolve digest signature).text ++ "\n"

/-- What a command writes for an input. -/
def Command.execute (command : Command) (input : Octets) : Except Failure Octets :=
  match command with
  | .convert _ hex maxDepth => converted hex maxDepth input
  | .dump _ maxDepth output => (dumpText maxDepth output input).map Utf8.encode
  | .timestamp _ output => (timestampText output input).map Utf8.encode
  | .oid digest signature => (oidText digest signature).map Utf8.encode

/-- How a run ends. -/
structure Outcome where
  exitCode : UInt32
  standardOutput : Octets
  standardError : String
  deriving Repr, DecidableEq

/-- The end of a run whose arguments ask for no command. -/
def Outcome.usage : Outcome where
  exitCode := 2
  standardOutput := []
  standardError := "usage: convert [FILE] [--hex] [--max-depth N]\n" ++
    "       dump [FILE] [--max-depth N] [-o|--output text|json]\n" ++
    "       timestamp [FILE] [-o|--output text|json]\n" ++
    "       oid DIGEST SIGNATURE\n"

/-- The end of a run with a result or a failure. -/
def Outcome.ofResult : Except Failure Octets → Outcome
  | .ok output => ⟨0, output, ""⟩
  | .error failure => ⟨1, [], "Error: " ++ failure.diagnostic ++ "\n"⟩

/-- The end of a command's run on what was read from its source. -/
def Command.run (command : Command) (input : Except ReadFailure Octets) : Outcome :=
  .ofResult (input.mapError .read >>= command.execute)

end Asn1.CommandLine
