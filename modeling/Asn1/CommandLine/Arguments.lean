import Asn1.Converter
import Asn1.Decimal

/-!
# Arguments

The first argument names a command and the others are its options and operands, in any order.

* `convert [FILE] [--hex] [--max-depth N]`
* `dump [FILE] [--max-depth N] [-o|--output text|json]`
* `timestamp [FILE] [-o|--output text|json]`
* `oid DIGEST SIGNATURE`

The value of an option is the next argument, or follows the option's name in the same argument:
`--name=V`, `-oV` or `-o=V`. No option may be given twice. After `--` every argument is an operand;
before it, one that starts with a dash and has more characters is neither operand nor value.
-/

namespace Asn1.CommandLine

/-- The form in which a command shows its result. -/
inductive OutputFormat where
  | text
  | json
  deriving Repr, DecidableEq

/-- A command with its options and operands. Without a file the standard input is read. -/
inductive Command where
  | convert (file : Option String) (hex : Bool) (maxDepth : Nat)
  | dump (file : Option String) (maxDepth : Nat) (output : OutputFormat)
  | timestamp (file : Option String) (output : OutputFormat)
  | oid (digest signature : String)
  deriving Repr, DecidableEq

/-- What an argument before `--` is. An option holds the value that stands in the same argument. -/
inductive Argument where
  | operand (text : String)
  | hex
  | maxDepth (value : Option String)
  | output (value : Option String)
  | unknown
  deriving Repr, DecidableEq

/-- The name of a long option and the value behind the first equals sign, if there is one. -/
def splitValue (option : List Char) : String × Option String :=
  (String.ofList (option.takeWhile (· != '=')),
    match option.dropWhile (· != '=') with
    | [] => none
    | _ :: value => some (String.ofList value))

/-- What a long option is, given what stands behind its two dashes. -/
def Argument.ofLong (option : List Char) : Argument :=
  match splitValue option with
  | ("hex", none) => .hex
  | ("max-depth", value) => .maxDepth value
  | ("output", value) => .output value
  | _ => .unknown

/-- What an argument is. A lone dash is an operand. -/
def Argument.of (text : String) : Argument :=
  match text.toList with
  | '-' :: '-' :: option => .ofLong option
  | ['-', 'o'] => .output none
  | '-' :: 'o' :: '=' :: value => .output (some (String.ofList value))
  | '-' :: 'o' :: value => .output (some (String.ofList value))
  | '-' :: _ :: _ => .unknown
  | _ => .operand text

/-- The options and operands of a command line, values still as text. -/
structure Settings where
  hex : Bool := false
  maxDepth : Option String := none
  output : Option String := none
  operands : List String := []
  deriving Repr, DecidableEq

/-- Notes an option's value, which must not be there yet. -/
def once (present : Option String) (value : String) : Option (Option String) :=
  match present with
  | none => some (some value)
  | some _ => none

/-- The value of an option: the one given in the same argument, or else the next argument, which
must be an operand. The arguments left are returned with it. -/
def takeValue (value : Option String) (rest : List String) : Option (String × List String) :=
  match value, rest with
  | some value, rest => some (value, rest)
  | none, [] => none
  | none, next :: rest =>
    match Argument.of next with
    | .operand value => some (value, rest)
    | _ => none

theorem length_le_of_takeValue {value : Option String} {rest rest' : List String} {taken : String}
    (h : takeValue value rest = some (taken, rest')) : rest'.length ≤ rest.length := by
  unfold takeValue at h
  split at h
  · simp only [Option.some.injEq, Prod.mk.injEq] at h
    simp [h.2]
  · simp at h
  · split at h
    · simp only [Option.some.injEq, Prod.mk.injEq] at h
      simp [← h.2]
    · simp at h

/-- Sorts arguments into options and operands; `none` when an argument is unknown, repeated or
without the value it needs. -/
def Settings.scan (settings : Settings) : List String → Option Settings
  | [] => some settings
  | "--" :: rest => some { settings with operands := settings.operands ++ rest }
  | argument :: rest =>
    match Argument.of argument with
    | .operand text => scan { settings with operands := settings.operands ++ [text] } rest
    | .hex => if settings.hex then none else scan { settings with hex := true } rest
    | .maxDepth value =>
      match _h : takeValue value rest with
      | none => none
      | some (value, rest) =>
        match once settings.maxDepth value with
        | none => none
        | some maxDepth => scan { settings with maxDepth } rest
    | .output value =>
      match _h : takeValue value rest with
      | none => none
      | some (value, rest) =>
        match once settings.output value with
        | none => none
        | some output => scan { settings with output } rest
    | .unknown => none
termination_by arguments => arguments.length
decreasing_by
  all_goals
    try have := length_le_of_takeValue ‹_›
    simp only [List.length_cons]
    omega

/-- The limit on nesting: a decimal number up to the cap, or the default one. -/
def Settings.maxDepth? (settings : Settings) : Option Nat :=
  match settings.maxDepth with
  | none => some Converter.default.maxDepth
  | some text =>
    match Decimal.read text.toList with
    | .error _ => none
    | .ok limit => if limit.toNat ≤ Value.depthCap then some limit.toNat else none

/-- The output format: text unless another one is asked for. -/
def Settings.output? (settings : Settings) : Option OutputFormat :=
  match settings.output with
  | none | some "text" => some .text
  | some "json" => some .json
  | some _ => none

/-- The file to read: at most one operand. -/
def Settings.file? (settings : Settings) : Option (Option String) :=
  match settings.operands with
  | [] => some none
  | [file] => some (some file)
  | _ => none

/-- The command of a name and its settings; every option that is given must be one of the
command's. -/
def Command.ofSettings (name : String) (settings : Settings) : Option Command :=
  match name with
  | "convert" =>
    if settings.output.isSome then none else do
      return .convert (← settings.file?) settings.hex (← settings.maxDepth?)
  | "dump" =>
    if settings.hex then none else do
      return .dump (← settings.file?) (← settings.maxDepth?) (← settings.output?)
  | "timestamp" =>
    if settings.hex ∨ settings.maxDepth.isSome then none else do
      return .timestamp (← settings.file?) (← settings.output?)
  | "oid" =>
    if settings.hex ∨ settings.maxDepth.isSome ∨ settings.output.isSome then none else
      match settings.operands with
      | [digest, signature] => some (.oid digest signature)
      | _ => none
  | _ => none

/-- The command that arguments ask for, if they are well formed. -/
def Command.ofArguments : List String → Option Command
  | [] => none
  | name :: arguments => do
    let settings ← Settings.scan {} arguments
    Command.ofSettings name settings

end Asn1.CommandLine
