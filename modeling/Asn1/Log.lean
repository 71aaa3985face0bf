/-!
# Log records

Operations that report on their work return log records beside their result, in the order in which
they were emitted.
-/

namespace Asn1.Log

/-- How much detail a record carries. -/
inductive Level where
  | trace
  | debug
  deriving Repr, DecidableEq

/-- The name of a level as it is shown. -/
def Level.name : Level → String
  | .trace => "TRACE"
  | .debug => "DEBUG"

/-- One emitted record: its level, the component that speaks, and what it says. -/
structure Record where
  level : Level
  target : String
  message : String
  deriving Repr, DecidableEq

end Asn1.Log
