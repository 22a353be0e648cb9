import TableMachine.Fault.Cause
import TableMachine.Files
import TableMachine.Number.Display
import TableMachine.Value.Heap

/-! # Element access

`container[index]`, by the kinds of both. Arrays, columns and table rows are indexed by numbers,
whose fractional part is dropped; objects, tables and paths by texts. A table also answers `rows`
and `columns` with new arrays, before it looks for a column of that name.
-/

namespace TableMachine.Operation

/-- The greatest number that is looked at as an index. -/
def maxIndex : Nat := pow2 31 - 1

/-- The position that an index value names. -/
def position (of_ : Indexed) : Value → Except Cause Nat
  | .number x =>
    if x.isNaN then .error (.indexNaN of_)
    else if x.less .zero then .error (.indexNegative of_)
    else if (Number.ofNat maxIndex).less x then .error (.indexHuge of_ x.truncate.display)
    else .ok x.wholePart
  | v => .error (.indexNotNumber of_ v.kind)

/-- The rows of a table as new arrays, and the array of them. -/
def rowArrays (heap : Heap) (rows : List (List Value)) : Value × Heap :=
  let (refs, heap) := rows.foldl (fun (state : Array Value × Heap) row =>
    let (refs, heap) := state
    let (ref, heap) := heap.newArray row.toArray
    (refs.push (.array ref), heap)) (#[], heap)
  let (ref, heap) := heap.newArray refs
  (.array ref, heap)

/-- `table[index]`: a column by name, a row by number. -/
def tableElement (heap : Heap) (ref : TableRef) : Value → Except Cause (Value × Heap)
  | .string name =>
    let t := heap.table ref
    if name = Text.ofString "rows" then .ok (rowArrays heap t.rows)
    else if name = Text.ofString "columns" then
      let (r, heap) := heap.newArray (t.headers.map Value.string).toArray
      .ok (.array r, heap)
    else if t.hasColumn name then .ok (.column ref name, heap)
    else .error (.tableColumnMissing name)
  | .number x => do
    let t := heap.table ref
    let n ← position .tableRow (.number x)
    match t.row? n with
    | some object =>
      let (r, heap) := heap.newObject object
      .ok (.object r, heap)
    | none => .error (.rowIndexOutside n t.rowCount)
  | v => .error (.tableIndexWrong v.kind)

/-- A text or, where there is none, null. -/
def textOrNull (wrap : Text → Value) : Option Text → Value
  | some t => wrap t
  | none => .null

/-- What a path says about itself or the file system about it. -/
def pathProperty (files : Files) (path property : Text) : Except Cause Value :=
  if property = Text.ofString "is_file" then .ok (.bool (files.isFile path))
  else if property = Text.ofString "is_dir" then .ok (.bool (files.isDirectory path))
  else if property = Text.ofString "exists" then .ok (.bool (files.contains path))
  else if property = Text.ofString "name" then .ok (textOrNull .string (Path.name? path))
  else if property = Text.ofString "extension" then .ok (textOrNull .string (Path.extension? path))
  else if property = Text.ofString "parent" then .ok (textOrNull .path (Path.parent? path))
  else .error (.pathPropertyMissing property)

/-- `container[index]` and the heap afterwards, which grows when the answer is a new container. -/
def element (files : Files) (heap : Heap) (container index : Value) :
    Except Cause (Value × Heap) :=
  match container with
  | .array r => do
    let n ← position .array index
    match (heap.array r)[n]? with
    | some v => .ok (v, heap)
    | none => .error (.arrayIndexOutside n (heap.array r).size)
  | .table r => tableElement heap r index
  | .object r =>
    match index with
    | .string key =>
      match (heap.object r).get? key with
      | some v => .ok (v, heap)
      | none => .error (.keyMissing key)
    | v => .error (.objectIndexNotText v.kind)
  | .column r name => do
    let n ← position .column index
    match (heap.table r).column? name with
    | none => .error (.columnMissing name)
    | some cells =>
      match cells[n]? with
      | some v => .ok (v, heap)
      | none => .error (.columnIndexOutside n cells.length)
  | .path p =>
    match index with
    | .string property => do
      let v ← pathProperty files p property
      .ok (v, heap)
    | v => .error (.pathIndexNotText v.kind)
  | v => .error (.notIndexable v.kind)

/-- The number of elements of an array or of rows of an existing column. -/
def arrayLength (heap : Heap) : Value → Except Cause Value
  | .array r => .ok (.ofNat (heap.array r).size)
  | .column r name =>
    if (heap.table r).hasColumn name then .ok (.ofNat (heap.table r).rowCount)
    else .error (.columnMissing name)
  | v => .error (.noLength v.kind)

end TableMachine.Operation
