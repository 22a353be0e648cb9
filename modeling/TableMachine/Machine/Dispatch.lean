import TableMachine.Machine.State

/-! # Dispatch of faults

A fault is offered to the active handlers, the latest first. A handler whose own activation raised
the fault within one of the handler's catch blocks is passed over. The first clause that accepts the
type of the fault ends the search: the stacks are cut down to what they were when the region was
entered, the message is bound, and the owner of the handler goes on at the catch block.
-/

namespace TableMachine

namespace CatchClause

/-- Whether the clause accepts a type; a clause whose type is not known accepts none. -/
def accepts (clause : CatchClause) (names : Array Text) (t : ErrorType) : Bool :=
  if !clause.isTyped then true
  else if clause.errorType < 0 then false
  else match names[clause.errorType.toNat]? with
    | none => false
    | some name =>
      match ErrorType.ofName? name with
      | some target => t.isA target
      | none => false

end CatchClause

namespace Machine

/-- The position of the innermost activation. -/
def topIndex (m : Machine) : Nat := m.frames.height - 1

/-- Whether a fault raised at `site` is offered to a handler. -/
def isEligible (m : Machine) (site : Int) (h : Handler) : Bool :=
  h.frameIndex ≤ m.topIndex && !(h.frameIndex == m.topIndex && h.region.inCatchBlock site)

/-- The clause of a handler that catches a fault raised at `site`. -/
def clauseFor? (m : Machine) (t : ErrorType) (site : Int) (h : Handler) : Option CatchClause :=
  if m.isEligible site h then
    match m.frames.get? h.frameIndex with
    | none => none
    | some owner => h.region.clauses.find? fun c => c.accepts owner.chunk.errorTypes.entries t
  else none

/-- The handler and the clause that catch a fault, and the handlers below. -/
def catcher? (m : Machine) (t : ErrorType) (site : Int) :
    List Handler → Option (Handler × CatchClause × List Handler)
  | [] => none
  | h :: older =>
    match m.clauseFor? t site h with
    | some clause => some (h, clause, older)
    | none => m.catcher? t site older

/-- The activation at the beginning of a catch block, with the message bound if the clause asks. -/
def enterCatch? (owner : Frame) (clause : CatchClause) (message : Text) : Option Frame := do
  let bound ← if clause.binds then owner.setLocal? clause.slot (.string message) else some owner
  some { bound with ip := clause.entry }

/-- What became of a fault. -/
inductive Dispatched where
  /-- It was caught, and the machine goes on. -/
  | caught (m : Machine)
  /-- No handler accepts it. -/
  | uncaught
  /-- The clause binds a slot that cannot exist. -/
  | broken

/-- Offers a fault raised at `site` to the active handlers. -/
def dispatch (m : Machine) (cause : Cause) (site : Int) : Dispatched :=
  match m.catcher? cause.errorType site m.handlers.items with
  | none => .uncaught
  | some (h, clause, older) =>
    let frames := m.frames.truncate (h.frameIndex + 1)
    match frames.top? with
    | none => .uncaught
    | some owner =>
      match enterCatch? owner clause cause.message with
      | none => .broken
      | some owner =>
        .caught { m with
          stack := m.stack.truncate h.stackHeight
          frames := frames.modifyTop fun _ => owner
          handlers := .ofList ({ h with fired := true } :: older) }

end Machine

end TableMachine
