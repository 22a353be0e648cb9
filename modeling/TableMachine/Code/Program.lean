import TableMachine.Code.Chunk

/-! # Functions and programs

A program is a main chunk and a table of functions. Either may have holes, as a stored program can
be incomplete; a hole shows only when it is used.
-/

namespace TableMachine

/-- A variable that a function copies out of a live activation when it is called. -/
structure Capture where
  name : Text
  /-- How far below the caller the activation lies; zero is the caller. -/
  depth : Int
  /-- The slot read there. -/
  source : Int
  /-- The slot written in the new activation. -/
  target : Int
deriving DecidableEq, Repr, Inhabited

/-- A function of a program. -/
structure Function where
  name : Text
  /-- The number of arguments a call has to give. -/
  arity : Int
  /-- The names of the parameters. -/
  params : Section Text := none
  captures : Array Capture := #[]
  /-- Whether results are remembered by their arguments. -/
  cacheable : Bool := false
  chunk : Option Chunk
deriving DecidableEq, Repr

namespace Function

/-- The slot of the first parameter; captured variables come before. -/
def paramStart (f : Function) : Nat := f.captures.size

/-- The number of slots a new activation has: captures and parameters, and every slot that a
capture writes. -/
def slotCount (f : Function) : Int :=
  f.captures.foldl (fun n c => max n (Int.bmod (c.target + 1) (pow2 64)))
    (f.captures.size + f.arity)

/-- The position of a further capture, and the function with it. -/
def addCapture (f : Function) (capture : Capture) : Nat × Function :=
  (f.captures.size, { f with captures := f.captures.push capture })

end Function

/-- A main chunk and the functions that function values name. -/
structure Program where
  main : Option Chunk
  functions : Array (Option Function) := #[]
deriving DecidableEq, Repr

namespace Program

/-- The entry of the function table at a position: none outside it, and within it perhaps a hole. -/
def function? (p : Program) (index : Int) : Option (Option Function) :=
  if index < 0 then none else p.functions[index.toNat]?

/-- The position of a further function, and the program with it. -/
def addFunction (p : Program) (f : Function) : Nat × Program :=
  (p.functions.size, { p with functions := p.functions.push (some f) })

end Program

end TableMachine
