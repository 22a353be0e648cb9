import TableMachine.Native.Builtin

/-! # Natives for probing a machine

Natives that exercise what the built-in ones do not reach: several faults in one call, faults on
behalf of the host, declarations by a call that fails, objects, and identities of tables. A missing
argument counts as null.
-/

namespace TableMachine.Native

/-- The argument at a position. -/
def argument (arguments : List Value) (i : Nat) : Value := arguments.getD i .null

/-- The error type that a value names; other values name the root. -/
def typeOf (v : Value) : ErrorType := (ErrorType.ofName? v.textOrEmpty).getD .error

/-- The arguments two by two; an odd last one is left out. -/
def pairs : List Value → List (Value × Value)
  | a :: b :: rest => (a, b) :: pairs rest
  | _ => []

/-- The number of its calls so far. -/
def count : Native where
  name := "count"
  run host _ :=
    let host := { host with tally := host.tally + 1 }
    answer host (.ofNat host.tally)

/-- A new object of keys and values. -/
def object : Native where
  name := "object"
  run host arguments :=
    let fields := (pairs arguments).map fun (k, v) => (k.render host.heap, v)
    let (r, heap) := host.heap.newObject (.ofEntries fields)
    answer { host with heap := heap } (.object r)

/-- Reports a fault for each type and message; only the first counts. -/
def raise : Native where
  name := "raise"
  run host arguments :=
    let report := (pairs arguments).foldl (fun (r : Report) (t, text) =>
      r.raise (.reported (typeOf t) (text.render host.heap))) (answer host .null)
    { report with value := .bool report.failed }

/-- Reports a fault of the host's surroundings. -/
def fail : Native where
  name := "fail"
  run host arguments :=
    { (answer host (.bool true)).raise (.reported .io ((argument arguments 0).render host.heap))
      with value := .bool true }

/-- Reports a failure of the host, if there is a message, and then another one. -/
def wrap : Native where
  name := "wrap"
  run host arguments :=
    let first :=
      match argument arguments 1 with
      | .null => answer host .null
      | text =>
        (answer host .null).raise
          (.wrapped (typeOf (argument arguments 0)) (text.render host.heap))
    let report := first.raise (.wrapped .key "second")
    { report with value := .bool report.failed }

/-- Stores an element of an array or a field of an object. -/
def set : Native where
  name := "set"
  run host arguments :=
    let key := argument arguments 1
    let v := argument arguments 2
    match argument arguments 0 with
    | .array r =>
      let x := key.numberOrZero
      match if x.isFinite then host.heap.setElement? r x.toInt v else none with
      | some heap => answer { host with heap := heap } (.bool true)
      | none => answer host (.bool false)
    | .object r =>
      answer { host with heap := host.heap.setField r (key.render host.heap) v } (.bool true)
    | _ => answer host (.bool false)

/-- The column of a table, whether or not it exists. -/
def column : Native where
  name := "column"
  run host arguments :=
    match argument arguments 0 with
    | .table t => answer host (.column t (argument arguments 1).textOrEmpty)
    | _ => answer host .null

/-- Declares relations and primary keys, and then fails if an argument is left over. -/
def declare : Native where
  name := "declare"
  run host arguments :=
    let report := (pairs arguments).foldl (fun (r : Report) (key, foreign) =>
      let r := (r.relate? key foreign).getD r
      (r.primaryKey? key).getD r) (answer host .null)
    if arguments.length % 2 = 1 then report.raise (.reported .value "declared then failed")
    else report

/-- Whether two values are one table. -/
def sameId : Native where
  name := "same_id"
  run host arguments :=
    match argument arguments 0, argument arguments 1 with
    | .table t, .table u => answer host (.bool (t == u))
    | _, _ => answer host (.bool false)

/-- A new array of the arguments. -/
def args : Native where
  name := "args"
  run host arguments :=
    let (r, heap) := host.heap.newArray arguments.toArray
    answer { host with heap := heap } (.array r)

/-- The probing natives by position, after the built-in ones. -/
def probes : List Native :=
  [count, object, raise, fail, wrap, set, column, declare, sameId, args]

end TableMachine.Native
