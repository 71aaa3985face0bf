import Asn1.CommandLine.Run

/-!
# The program

Reads the arguments and the input, runs the command, and writes what it has to say.
-/

namespace Asn1.CommandLine

/-- The octets of a stream up to its end, behind those read so far. -/
partial def readStream (stream : IO.FS.Stream) (octets : ByteArray) : IO ByteArray := do
  let chunk ← stream.read 65536
  if chunk.isEmpty then return octets else readStream stream (octets ++ chunk)

/-- The failure that a system error stands for. -/
def ReadFailure.ofError : IO.Error → ReadFailure
  | .noFileOrDirectory _ _ _ => .notFound
  | .permissionDenied _ code message => ⟨code.toNat, "PermissionDenied", message⟩
  | .inappropriateType _ code message => ⟨code.toNat, "IsADirectory", message⟩
  | .interrupted _ code message => ⟨code.toNat, "Interrupted", message⟩
  | .resourceExhausted _ code message => ⟨code.toNat, "OutOfMemory", message⟩
  | error => ⟨0, "Other", toString error⟩

/-- The octets of a source, or why they cannot be read. -/
def Source.read : Source → IO (Except ReadFailure Octets)
  | .nothing => return .ok []
  | .standardInput => try
      let octets ← readStream (← IO.getStdin) .empty
      return .ok octets.toList
    catch error => return .error (.ofError error)
  | .file path => try
      let octets ← IO.FS.readBinFile path
      return .ok octets.toList
    catch error => return .error (.ofError error)

end Asn1.CommandLine

open Asn1.CommandLine

/-- Runs the command that the arguments ask for. -/
def main (arguments : List String) : IO UInt32 := do
  let outcome ← match Command.ofArguments arguments with
    | none => pure Outcome.usage
    | some command => command.run <$> command.source.read
  let output ← IO.getStdout
  output.write ⟨outcome.standardOutput.toArray⟩
  output.flush
  IO.eprint outcome.standardError
  return outcome.exitCode
