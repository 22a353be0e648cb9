import TableMachine.Value.Table

/-! # The heap

Arrays, objects and tables live in three stores and are named by their position there. Stores only
grow. A reference that leads nowhere reads as an empty container; no operation makes one.
-/

namespace TableMachine

/-- The shared containers of a machine. -/
structure Heap where
  arrays : Array (Array Value) := #[]
  objects : Array Object := #[]
  tables : Array Table := #[]
deriving Repr, Inhabited

/-- A reference of any kind. -/
inductive Ref where
  | array (ref : ArrayRef)
  | object (ref : ObjectRef)
  | table (ref : TableRef)
deriving DecidableEq, Repr

namespace Heap

/-! ## Reading -/

/-- The elements of an array. -/
def array (heap : Heap) (ref : ArrayRef) : Array Value := heap.arrays.getD ref.id #[]

/-- The fields of an object. -/
def object (heap : Heap) (ref : ObjectRef) : Object := heap.objects.getD ref.id .empty

/-- A table. -/
def table (heap : Heap) (ref : TableRef) : Table := heap.tables.getD ref.id (.ofHeaders [])

/-- The number of containers. -/
def size (heap : Heap) : Nat := heap.arrays.size + heap.objects.size + heap.tables.size

/-! ## Allocating -/

/-- A new array. -/
def newArray (heap : Heap) (elements : Array Value) : ArrayRef × Heap :=
  (⟨heap.arrays.size⟩, { heap with arrays := heap.arrays.push elements })

/-- A new object. -/
def newObject (heap : Heap) (object : Object) : ObjectRef × Heap :=
  (⟨heap.objects.size⟩, { heap with objects := heap.objects.push object })

/-- A new table. -/
def newTable (heap : Heap) (table : Table) : TableRef × Heap :=
  (⟨heap.tables.size⟩, { heap with tables := heap.tables.push table })

/-! ## Writing -/

/-- The heap with other elements in an array. -/
def setArray (heap : Heap) (ref : ArrayRef) (elements : Array Value) : Heap :=
  { heap with arrays := heap.arrays.setIfInBounds ref.id elements }

/-- The heap with other fields in an object. -/
def setObject (heap : Heap) (ref : ObjectRef) (object : Object) : Heap :=
  { heap with objects := heap.objects.setIfInBounds ref.id object }

/-- The heap with another table in place of one. -/
def setTable (heap : Heap) (ref : TableRef) (table : Table) : Heap :=
  { heap with tables := heap.tables.setIfInBounds ref.id table }

/-- The heap with a value at the end of an array. -/
def append (heap : Heap) (ref : ArrayRef) (values : List Value) : Heap :=
  { heap with arrays := heap.arrays.modify ref.id (· ++ values.toArray) }

/-- The heap with one element of an array replaced, if the position exists. -/
def setElement? (heap : Heap) (ref : ArrayRef) (index : Int) (value : Value) : Option Heap :=
  let elements := heap.array ref
  if 0 ≤ index && index < elements.size then
    some (heap.setArray ref (elements.setIfInBounds index.toNat value))
  else none

/-- The element of an array at a position, or null outside. -/
def element (heap : Heap) (ref : ArrayRef) (index : Int) : Value :=
  if 0 ≤ index then (heap.array ref).getD index.toNat .null else .null

/-- The heap with a field of an object stored. -/
def setField (heap : Heap) (ref : ObjectRef) (key : Text) (value : Value) : Heap :=
  { heap with objects := heap.objects.modify ref.id (·.set key value) }

/-- The heap with a table named. -/
def nameTable (heap : Heap) (ref : TableRef) (name : Text) : Heap :=
  { heap with tables := heap.tables.modify ref.id fun t => { t with name := name } }

/-! ## References -/

/-- The container a value refers to; a column reference refers to none of its own. -/
def refOf : Value → Option Ref
  | .array r => some (.array r)
  | .object r => some (.object r)
  | .table r => some (.table r)
  | _ => none

/-- The values directly inside a container. -/
def contents (heap : Heap) : Ref → List Value
  | .array r => (heap.array r).toList
  | .object r => (heap.object r).values
  | .table r => (heap.table r).rows.flatten

/-- The containers directly inside a container. -/
def children (heap : Heap) (ref : Ref) : List Ref := (heap.contents ref).filterMap refOf

/-- The number of values inside all containers. -/
def totalContents (heap : Heap) : Nat :=
  heap.arrays.foldl (fun n a => n + a.size) 0
    + heap.objects.foldl (fun n o => n + o.size) 0
    + heap.tables.foldl (fun n t => n + t.rows.flatten.length) 0

end Heap

end TableMachine
