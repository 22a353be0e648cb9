import TableMachine.Fault.Cause

/-! # Faults

A fault is a cause placed in a run: the line it was raised at and the activations that were live,
the innermost first.
-/

namespace TableMachine

/-- One live activation in the trace of a fault. -/
structure TraceEntry where
  /-- The name of the activation's function. -/
  function : Text
  /-- The line of the instruction it was at. -/
  line : Int
deriving DecidableEq, Repr

/-- A fault raised by a run. -/
structure Fault where
  cause : Cause
  line : Int
  /-- The live activations, the innermost first. -/
  trace : List TraceEntry
deriving DecidableEq, Repr

namespace Fault

/-- The fault in one line. -/
def text (f : Fault) : Text :=
  Text.concat ["line ", Text.ofInt f.line, ": ", f.cause.message]

/-- The fault with its type and one line for each live activation. -/
def traceText (f : Fault) : Text :=
  Text.concat [f.cause.errorType.name, " at line ", Text.ofInt f.line, ": ", f.cause.message, "\n",
    Text.concat (f.trace.map fun e =>
      Text.concat ["  at ", e.function, " (line ", Text.ofInt e.line, ")\n"])]

end Fault

end TableMachine
