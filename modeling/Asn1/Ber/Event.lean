import Asn1.Log

/-!
# Decoding events

What the decoder and the converter report of their work. Events name depths, counts and limits,
never octets of the input. `record` gives the log record of an event.
-/

namespace Asn1.Ber

/-- A step of decoding or conversion that is worth a record. -/
inductive Event where
  /-- A constructed element inside another was entered; it is the `depth`-th around its content. -/
  | opened (depth : Nat)
  /-- The `depth`-th constructed element around the cursor is complete. -/
  | closed (depth : Nat)
  /-- An inner element is longer than the one around it. -/
  | overrun
  /-- An element lies deeper than the limit. -/
  | tooDeep (limit : Nat)
  /-- Octets follow the outermost element. -/
  | trailing (count : Nat)
  /-- An input was converted; the sizes before and after. -/
  | canonicalized (received encoded : Nat)
  deriving Repr, DecidableEq

namespace Event

/-- How much detail an event is: the walk through the tree is finer than a verdict. -/
def level : Event → Log.Level
  | .opened _ | .closed _ => .trace
  | .overrun | .tooDeep _ | .trailing _ | .canonicalized _ _ => .debug

/-- The component that reports an event: the converter or the value decoder. -/
def target : Event → String
  | .canonicalized _ _ => "der"
  | _ => "der::value"

/-- The sentence for an event. -/
def message : Event → String
  | .opened depth => s!"opened constructed value at depth {depth}"
  | .closed depth => s!"closed constructed value at depth {depth}"
  | .overrun => "rejecting BER input: child element overruns its parent"
  | .tooDeep limit => s!"rejecting BER input: nesting exceeds {limit} levels"
  | .trailing count =>
    s!"rejecting BER input: {count} trailing octets after top-level value"
  | .canonicalized received encoded =>
    s!"canonicalized {received} BER octets into {encoded} DER octets"

/-- The log record of an event. -/
def record (event : Event) : Log.Record :=
  ⟨event.level, event.target, event.message⟩

end Event

end Asn1.Ber
