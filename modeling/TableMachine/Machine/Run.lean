import TableMachine.Machine.Step

/-! # Runs

A run starts the main chunk of a program on a machine and takes steps until one ends it. It forgets
what earlier runs left on the stacks and declared, and keeps globals and remembered results. The
number of steps is bounded by an argument; the bound shows only as an answer of its own.
-/

namespace TableMachine

/-- How a run ended. -/
inductive Result where
  /-- With a value. -/
  | value (v : Value)
  /-- With a fault that no handler caught. -/
  | fault (f : Fault)
  /-- It never started: the program has no main chunk. -/
  | noMain
  /-- It met a missing part of the program. -/
  | broken
  /-- It was still going when the steps were used up. -/
  | unfinished

namespace Result

/-- The wording of a program that cannot start. -/
def noMainMessage : Text := "vm: program has no main chunk"

end Result

namespace Machine

/-- The machine at the start of a program. -/
def start (m : Machine) (main : Chunk) : Machine :=
  { m with
    stack := .empty
    frames := .ofList [Frame.root main]
    handlers := .empty
    globalNames := main.globalNames
    explicitNames := main.explicitNames
    relations := []
    primaryKeys := []
    activations := 0
    regionsEntered := 0 }

/-- The machine without activations and handlers, as a fault leaves it. -/
def settle (m : Machine) : Machine := { m with frames := .empty, handlers := .empty }

/-- Steps until the run ends. -/
def runSteps (s : Setup) : (fuel : Nat) → Machine → Result × Machine
  | 0, m => (.unfinished, m)
  | fuel + 1, m =>
    match m.step s with
    | .next m => runSteps s fuel m
    | .finished v m => (.value v, m)
    | .failed f m => (.fault f, m.settle)
    | .broken => (.broken, m)

/-- Runs a program. -/
def run (s : Setup) (fuel : Nat) (m : Machine) : Result × Machine :=
  match s.loaded.program.main with
  | none => (.noMain, m)
  | some main => runSteps s fuel (m.start main)

/-- Binds a global slot before or between runs. -/
def defineGlobal? (m : Machine) (slot : Int) (v : Value) : Option Machine :=
  if slot < 0 then none else m.storeGlobal? slot v

/-- The wording of a refused slot. -/
def badSlotMessage (slot : Int) : Text :=
  Text.concat ["vm: invalid global slot ", Text.ofInt slot]

/-- The value of the lowest stored slot registered under a name. The outer option is empty when
that name is registered for a slot that cannot exist. -/
def lookup? (m : Machine) (name : Text) : Option (Option Value) :=
  match m.globalNames.entries.find? fun (slot, n) => n = name && slot < m.globals.size with
  | none => some none
  | some (slot, _) => if slot < 0 then none else some (some (m.global slot))

end Machine

end TableMachine
