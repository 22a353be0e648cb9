import TableMachine.Value.Heap

/-! # Deep copies

A deep copy renames every container that can be reached from a value, not counting ways through
column references, to a new one. Sharing and cycles are kept, column references go on naming the
table they named, and no existing container changes.
-/

namespace TableMachine.Heap

/-- The containers reached from `pending`, after those in `seen`, when `next` lists what is inside one;
the latest found stands first. -/
def explore (next : Ref → List Ref) : (fuel : Nat) → (pending seen : List Ref) → List Ref
  | 0, _, seen => seen
  | _, [], seen => seen
  | fuel + 1, ref :: pending, seen =>
    if seen.contains ref then explore next fuel pending seen
    else explore next fuel (next ref ++ pending) (ref :: seen)

/-- The containers that can be reached from a value, each once. Every container is opened at most
once, so the number of steps is bounded by what all of them hold. -/
def reachable (heap : Heap) (v : Value) : List Ref :=
  (explore heap.children (heap.totalContents + 2) (refOf v).toList []).reverse

/-- The arrays among the references, in order. -/
def arraysOf (refs : List Ref) : List ArrayRef :=
  refs.filterMap fun
    | .array r => some r
    | _ => none

/-- The objects among the references, in order. -/
def objectsOf (refs : List Ref) : List ObjectRef :=
  refs.filterMap fun
    | .object r => some r
    | _ => none

/-- The tables among the references, in order. -/
def tablesOf (refs : List Ref) : List TableRef :=
  refs.filterMap fun
    | .table r => some r
    | _ => none

/-- The value with each reference of `refs` replaced by the place its copy will have. -/
def relocate (heap : Heap) (refs : List Ref) : Value → Value
  | .array r =>
    match (arraysOf refs).idxOf? r with
    | some i => .array ⟨heap.arrays.size + i⟩
    | none => .array r
  | .object r =>
    match (objectsOf refs).idxOf? r with
    | some i => .object ⟨heap.objects.size + i⟩
    | none => .object r
  | .table r =>
    match (tablesOf refs).idxOf? r with
    | some i => .table ⟨heap.tables.size + i⟩
    | none => .table r
  | v => v

/-- A copy of a table with its cells replaced and its index new. -/
def copyTable (cell : Value → Value) (t : Table) : Table :=
  { name := t.name, headers := t.headers, rows := t.rows.map (·.map cell), indexed := t.headers }

/-- A copy of a value and the heap that holds it, made of the containers of `refs` in this order. -/
def copyAlong (heap : Heap) (refs : List Ref) (v : Value) : Value × Heap :=
  let move := heap.relocate refs
  (move v,
    { arrays := heap.arrays ++ ((arraysOf refs).map fun r => (heap.array r).map move).toArray
      objects := heap.objects ++ ((objectsOf refs).map fun r => (heap.object r).mapValues move).toArray
      tables := heap.tables ++ ((tablesOf refs).map fun r =>
        copyTable move (heap.table r)).toArray })

/-- A deep copy of a value and the heap that holds it. -/
def deepClone (heap : Heap) (v : Value) : Value × Heap := heap.copyAlong (heap.reachable v) v

end TableMachine.Heap
