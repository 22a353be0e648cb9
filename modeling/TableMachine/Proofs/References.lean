import TableMachine.Operation.Arithmetic
import TableMachine.Operation.Element
import TableMachine.Proofs.Dictionaries
import TableMachine.Value.Clone

/-! # References that lead somewhere

A value refers to containers of the heap by their positions. A heap is closed when all references inside
its containers lead to containers, and since no container is ever lost, a reference that is good stays
good. Here it is shown of every operation on the heap that it keeps the heap closed and answers with
references that are good: of the allocations and writes, of deep copies and of the operators.
-/

namespace TableMachine

namespace Heap

variable {heap heap' heap'' : Heap} {v : Value}

/-! ## Good references -/

/-- The container that a value refers to exists; for a column, this is its table. -/
def Has (heap : Heap) : Value → Prop
  | .array r => r.id < heap.arrays.size
  | .object r => r.id < heap.objects.size
  | .table r => r.id < heap.tables.size
  | .column r _ => r.id < heap.tables.size
  | _ => True

/-- Whatever stands in a container refers to containers. -/
structure Closed (heap : Heap) : Prop where
  array : ∀ r, ∀ v ∈ heap.array r, heap.Has v
  object : ∀ r, ∀ field ∈ (heap.object r).entries, heap.Has field.2
  table : ∀ r, ∀ row ∈ (heap.table r).rows, ∀ v ∈ row, heap.Has v

/-- `heap'` is closed and has at least the containers of `heap`. -/
structure Extends (heap heap' : Heap) : Prop where
  arrays : heap.arrays.size ≤ heap'.arrays.size
  objects : heap.objects.size ≤ heap'.objects.size
  tables : heap.tables.size ≤ heap'.tables.size
  closed : heap'.Closed

theorem closed_empty : Closed {} := by
  refine ⟨fun r v member => ?_, fun r field member => ?_, fun r row member => ?_⟩ <;>
    simp [array, object, table, Table.ofHeaders] at member

theorem Closed.extends_self (closed : heap.Closed) : heap.Extends heap :=
  ⟨Nat.le_refl _, Nat.le_refl _, Nat.le_refl _, closed⟩

theorem Extends.trans (first : heap.Extends heap') (second : heap'.Extends heap'') :
    heap.Extends heap'' where
  arrays := Nat.le_trans first.arrays second.arrays
  objects := Nat.le_trans first.objects second.objects
  tables := Nat.le_trans first.tables second.tables
  closed := second.closed

private theorem has_of_le (arrays : heap.arrays.size ≤ heap'.arrays.size)
    (objects : heap.objects.size ≤ heap'.objects.size)
    (tables : heap.tables.size ≤ heap'.tables.size) (has : heap.Has v) : heap'.Has v := by
  cases v with
  | array r => exact Nat.lt_of_lt_of_le has arrays
  | object r => exact Nat.lt_of_lt_of_le has objects
  | table r => exact Nat.lt_of_lt_of_le has tables
  | column r name => exact Nat.lt_of_lt_of_le has tables
  | _ => trivial

/-- A good reference stays good. -/
theorem Extends.has (extends_ : heap.Extends heap') (has : heap.Has v) : heap'.Has v :=
  has_of_le extends_.arrays extends_.objects extends_.tables has

/-- A heap that grew is closed if what its containers hold was already good before. -/
theorem extends_of_has (arrays : heap.arrays.size ≤ heap'.arrays.size)
    (objects : heap.objects.size ≤ heap'.objects.size)
    (tables : heap.tables.size ≤ heap'.tables.size) (array : ∀ r, ∀ v ∈ heap'.array r, heap.Has v)
    (object : ∀ r, ∀ field ∈ (heap'.object r).entries, heap.Has field.2)
    (table : ∀ r, ∀ row ∈ (heap'.table r).rows, ∀ v ∈ row, heap.Has v) : heap.Extends heap' where
  arrays := arrays
  objects := objects
  tables := tables
  closed := by
    have kept : ∀ {v}, heap.Has v → heap'.Has v := fun has => has_of_le arrays objects tables has
    exact ⟨fun r v member => kept (array r v member), fun r f member => kept (object r f member),
      fun r row stored v member => kept (table r row stored v member)⟩

/-! ## Stores -/

section

variable {α : Type} (xs ys : Array α) (x d : α) (n i : Nat) (f : α → α)

theorem getD_push : (xs.push x).getD i d = xs.getD i d ∨ (xs.push x).getD i d = x := by
  simp only [Array.getD_eq_getD_getElem?, Array.getElem?_push]
  split
  · exact .inr rfl
  · exact .inl rfl

theorem getD_setIfInBounds :
    (xs.setIfInBounds n x).getD i d = xs.getD i d ∨ (xs.setIfInBounds n x).getD i d = x := by
  simp only [Array.getD_eq_getD_getElem?, Array.getElem?_setIfInBounds]
  split
  · split
    · exact .inr rfl
    · rename_i same outside
      rw [← same, Array.getElem?_eq_none (Nat.le_of_not_lt outside)]
      exact .inl rfl
  · exact .inl rfl

theorem getD_modify :
    (xs.modify n f).getD i d = xs.getD i d ∨ (xs.modify n f).getD i d = f (xs.getD i d) := by
  simp only [Array.getD_eq_getD_getElem?, Array.getElem?_modify]
  split
  · cases xs[i]? with
    | none => exact .inl rfl
    | some y => exact .inr rfl
  · exact .inl rfl

theorem getD_append :
    (xs ++ ys).getD i d = xs.getD i d ∨ (xs ++ ys).getD i d ∈ ys := by
  simp only [Array.getD_eq_getD_getElem?, Array.getElem?_append]
  split
  · exact .inl rfl
  · rename_i outside
    rw [Array.getElem?_eq_none (Nat.le_of_not_lt outside)]
    cases found : ys[i - xs.size]? with
    | none => exact .inl rfl
    | some y => exact .inr (Array.mem_of_getElem? found)

end

/-! ## Allocations and writes -/

theorem newArray_extends (closed : heap.Closed) {elements : Array Value}
    (live : ∀ v ∈ elements, heap.Has v) : heap.Extends (heap.newArray elements).2 := by
  refine extends_of_has (by simp [newArray]) (Nat.le_refl _) (Nat.le_refl _) ?_ closed.object
    closed.table
  intro r v member
  have member : v ∈ (heap.arrays.push elements).getD r.id #[] := member
  rcases getD_push heap.arrays elements #[] r.id with old | new
  · rw [old] at member
    exact closed.array r v member
  · rw [new] at member
    exact live v member

theorem newArray_has (heap : Heap) (elements : Array Value) :
    (heap.newArray elements).2.Has (.array (heap.newArray elements).1) := by
  show heap.arrays.size < (heap.arrays.push elements).size
  simp

theorem newObject_extends (closed : heap.Closed) {object : Object}
    (live : ∀ field ∈ object.entries, heap.Has field.2) : heap.Extends (heap.newObject object).2 := by
  refine extends_of_has (Nat.le_refl _) (by simp [newObject]) (Nat.le_refl _) closed.array ?_
    closed.table
  intro r field member
  have member : field ∈ ((heap.objects.push object).getD r.id .empty).entries := member
  rcases getD_push heap.objects object .empty r.id with old | new
  · rw [old] at member
    exact closed.object r field member
  · rw [new] at member
    exact live field member

theorem newObject_has (heap : Heap) (object : Object) :
    (heap.newObject object).2.Has (.object (heap.newObject object).1) := by
  show heap.objects.size < (heap.objects.push object).size
  simp

theorem newTable_extends (closed : heap.Closed) {table : Table}
    (live : ∀ row ∈ table.rows, ∀ v ∈ row, heap.Has v) : heap.Extends (heap.newTable table).2 := by
  refine extends_of_has (Nat.le_refl _) (Nat.le_refl _) (by simp [newTable]) closed.array
    closed.object ?_
  intro r row member
  have member : row ∈ ((heap.tables.push table).getD r.id (.ofHeaders [])).rows := member
  rcases getD_push heap.tables table (.ofHeaders []) r.id with old | new
  · rw [old] at member
    exact closed.table r row member
  · rw [new] at member
    exact live row member

theorem newTable_has (heap : Heap) (table : Table) :
    (heap.newTable table).2.Has (.table (heap.newTable table).1) := by
  show heap.tables.size < (heap.tables.push table).size
  simp

theorem setTable_extends (closed : heap.Closed) (r : TableRef) {table : Table}
    (live : ∀ row ∈ table.rows, ∀ v ∈ row, heap.Has v) : heap.Extends (heap.setTable r table) := by
  refine extends_of_has (Nat.le_refl _) (Nat.le_refl _) (by simp [setTable]) closed.array
    closed.object ?_
  intro q row member
  have member : row ∈ ((heap.tables.setIfInBounds r.id table).getD q.id (.ofHeaders [])).rows := member
  rcases getD_setIfInBounds heap.tables table (.ofHeaders []) r.id q.id with old | new
  · rw [old] at member
    exact closed.table q row member
  · rw [new] at member
    exact live row member

theorem append_extends (closed : heap.Closed) (r : ArrayRef) {values : List Value}
    (live : ∀ v ∈ values, heap.Has v) : heap.Extends (heap.append r values) := by
  refine extends_of_has (by simp [append]) (Nat.le_refl _) (Nat.le_refl _) ?_ closed.object
    closed.table
  intro q v member
  have member : v ∈ (heap.arrays.modify r.id (· ++ values.toArray)).getD q.id #[] := member
  rcases getD_modify heap.arrays #[] r.id q.id (· ++ values.toArray) with old | new
  · rw [old] at member
    exact closed.array q v member
  · rw [new, Array.mem_append] at member
    rcases member with old | added
    · exact closed.array q v old
    · exact live v (List.mem_toArray.mp added)

theorem nameTable_extends (closed : heap.Closed) (r : TableRef) (name : Text) :
    heap.Extends (heap.nameTable r name) := by
  refine extends_of_has (Nat.le_refl _) (Nat.le_refl _) (by simp [nameTable]) closed.array
    closed.object ?_
  intro q row member
  have member : row ∈ ((heap.tables.modify r.id fun t => { t with name := name }).getD q.id
    (.ofHeaders [])).rows := member
  rcases getD_modify heap.tables (.ofHeaders []) r.id q.id fun t => { t with name := name } with old | new
  · rw [old] at member
    exact closed.table q row member
  · rw [new] at member
    exact closed.table q row member

/-! ## Deep copies -/

private theorem lt_length_of_idxOf? {α : Type} [BEq α] {x : α} {xs : List α} {i : Nat}
    (found : xs.idxOf? x = some i) : i < xs.length :=
  (List.findIdx?_eq_some_iff_getElem.mp found).1

private theorem deepClone_arrays_size (heap : Heap) (v : Value) : (heap.deepClone v).2.arrays.size =
    heap.arrays.size + (arraysOf (heap.reachable v)).length := by
  simp [deepClone, copyAlong]

private theorem deepClone_objects_size (heap : Heap) (v : Value) : (heap.deepClone v).2.objects.size =
    heap.objects.size + (objectsOf (heap.reachable v)).length := by
  simp [deepClone, copyAlong]

theorem deepClone_tables_size (heap : Heap) (v : Value) : (heap.deepClone v).2.tables.size =
    heap.tables.size + (tablesOf (heap.reachable v)).length := by
  simp [deepClone, copyAlong]

private theorem deepClone_has {w : Value} (has : heap.Has v) : (heap.deepClone w).2.Has v := by
  have arrays := deepClone_arrays_size heap w
  have objects := deepClone_objects_size heap w
  have tables := deepClone_tables_size heap w
  exact has_of_le (by omega) (by omega) (by omega) has

/-- A good reference is good at the place of its copy. -/
theorem deepClone_has_relocate {w : Value} (has : heap.Has v) :
    (heap.deepClone w).2.Has (heap.relocate (heap.reachable w) v) := by
  have arrays := deepClone_arrays_size heap w
  have objects := deepClone_objects_size heap w
  have tables := deepClone_tables_size heap w
  have kept := deepClone_has (w := w) has
  cases v with
  | array r =>
      simp only [relocate]
      cases found : (arraysOf (heap.reachable w)).idxOf? r with
      | none => exact kept
      | some i =>
          have inside := lt_length_of_idxOf? found
          show heap.arrays.size + i < _
          omega
  | object r =>
      simp only [relocate]
      cases found : (objectsOf (heap.reachable w)).idxOf? r with
      | none => exact kept
      | some i =>
          have inside := lt_length_of_idxOf? found
          show heap.objects.size + i < _
          omega
  | table r =>
      simp only [relocate]
      cases found : (tablesOf (heap.reachable w)).idxOf? r with
      | none => exact kept
      | some i =>
          have inside := lt_length_of_idxOf? found
          show heap.tables.size + i < _
          omega
  | column r name => exact kept
  | _ => trivial

/-- What an array of the heap with the copy holds is what it held before, or what another one held,
relocated. The same goes for objects and tables. -/
theorem deepClone_array_cases (heap : Heap) (w : Value) (r : ArrayRef) :
    (heap.deepClone w).2.array r = heap.array r ∨ ∃ q, (heap.deepClone w).2.array r =
      (heap.array q).map (heap.relocate (heap.reachable w)) := by
  refine (getD_append _ _ _ _).imp id fun copied => ?_
  obtain ⟨q, _, same⟩ := List.mem_map.mp (List.mem_toArray.mp copied)
  exact ⟨q, same.symm⟩

theorem deepClone_object_cases (heap : Heap) (w : Value) (r : ObjectRef) :
    (heap.deepClone w).2.object r = heap.object r ∨ ∃ q, (heap.deepClone w).2.object r =
      (heap.object q).mapValues (heap.relocate (heap.reachable w)) := by
  refine (getD_append _ _ _ _).imp id fun copied => ?_
  obtain ⟨q, _, same⟩ := List.mem_map.mp (List.mem_toArray.mp copied)
  exact ⟨q, same.symm⟩

theorem deepClone_table_cases (heap : Heap) (w : Value) (r : TableRef) :
    (heap.deepClone w).2.table r = heap.table r ∨ ∃ q, (heap.deepClone w).2.table r =
      copyTable (heap.relocate (heap.reachable w)) (heap.table q) := by
  refine (getD_append _ _ _ _).imp id fun copied => ?_
  obtain ⟨q, _, same⟩ := List.mem_map.mp (List.mem_toArray.mp copied)
  exact ⟨q, same.symm⟩

theorem deepClone_extends (closed : heap.Closed) (w : Value) : heap.Extends (heap.deepClone w).2 := by
  have arrays := deepClone_arrays_size heap w
  have objects := deepClone_objects_size heap w
  have tables := deepClone_tables_size heap w
  refine ⟨by omega, by omega, by omega, ?_, ?_, ?_⟩
  · intro r x member
    rcases deepClone_array_cases heap w r with old | ⟨q, copy⟩
    · rw [old] at member
      exact deepClone_has (closed.array r x member)
    · rw [copy] at member
      obtain ⟨y, stored, rfl⟩ := Array.mem_map.mp member
      exact deepClone_has_relocate (closed.array q y stored)
  · intro r field member
    rcases deepClone_object_cases heap w r with old | ⟨q, copy⟩
    · rw [old] at member
      exact deepClone_has (closed.object r field member)
    · rw [copy] at member
      obtain ⟨f, stored, rfl⟩ := List.mem_map.mp member
      exact deepClone_has_relocate (closed.object q f stored)
  · intro r row member x cell
    rcases deepClone_table_cases heap w r with old | ⟨q, copy⟩
    · rw [old] at member
      exact deepClone_has (closed.table r row member x cell)
    · rw [copy] at member
      obtain ⟨cells, stored, rfl⟩ := List.mem_map.mp member
      obtain ⟨y, found, rfl⟩ := List.mem_map.mp cell
      exact deepClone_has_relocate (closed.table q cells stored y found)

end Heap

/-! ## Operations -/

theorem ok_of_bind {ε α β : Type} {x : Except ε α} {f : α → Except ε β} {y : β}
    (done : x >>= f = .ok y) : ∃ z, x = .ok z ∧ f z = .ok y := by
  cases x with
  | error cause => cases done
  | ok z => exact ⟨z, rfl, done⟩

namespace Operation

variable {heap heap' : Heap} {op : Opcode} {a b v container index : Value} {files : Files}

/-- The results of operators refer to nothing. -/
theorem binary_has (done : binary heap op a b = .ok v) (heap' : Heap) : heap'.Has v := by
  unfold binary at done
  split at done
  · unfold add at done
    split at done <;> cases done <;> trivial
  · unfold divide at done
    split at done
    · split at done <;> cases done
      trivial
    · cases done
      trivial
    · cases done
      trivial
    · cases done
  · cases done
    trivial
  · cases done
    trivial
  iterate 4
    · unfold compare at done
      split at done <;> cases done <;> trivial
  · split at done
    · unfold arithmetic at done
      split at done
      · cases done
        trivial
      · cases done
        trivial
      · split at done <;> cases done
        trivial
      · split at done <;> cases done
        trivial
      · cases done
        trivial
      · cases done
    · cases done

theorem negate_has (done : negate a = .ok v) (heap' : Heap) : heap'.Has v := by
  unfold negate at done
  split at done
  · cases done
    trivial
  · cases done

theorem member_has (done : member heap a b = .ok v) (heap' : Heap) : heap'.Has v := by
  unfold member at done
  split at done
  · cases done
    trivial
  · cases done

theorem arrayLength_has (done : arrayLength heap a = .ok v) (heap' : Heap) : heap'.Has v := by
  unfold arrayLength at done
  split at done
  · cases done
    trivial
  · split at done
    · cases done
      trivial
    · cases done
  · cases done

theorem pathProperty_has {path property : Text} (done : pathProperty files path property = .ok v)
    (heap' : Heap) : heap'.Has v := by
  have text : ∀ (wrap : Text → Value) (found : Option Text), (∀ t, heap'.Has (wrap t)) →
      heap'.Has (textOrNull wrap found) := by
    intro wrap found has
    cases found with
    | none => trivial
    | some t => exact has t
  unfold pathProperty at done
  repeat' split at done
  all_goals cases done
  · trivial
  · trivial
  · trivial
  · exact text .string _ fun _ => trivial
  · exact text .string _ fun _ => trivial
  · exact text .path _ fun _ => trivial

/-- One row after the other becomes an array; the references collected so far stay good. -/
theorem rowArrays_extends (closed : heap.Closed) {rows : List (List Value)}
    (live : ∀ row ∈ rows, ∀ v ∈ row, heap.Has v) :
    heap.Extends (rowArrays heap rows).2 ∧ (rowArrays heap rows).2.Has (rowArrays heap rows).1 := by
  unfold rowArrays
  generalize folded : rows.foldl _ (#[], heap) = state
  have collected : heap.Extends state.2 ∧ ∀ v ∈ state.1, state.2.Has v := by
    rw [← folded]
    refine List.foldlRecOn (motive := fun (state : Array Value × Heap) =>
      heap.Extends state.2 ∧ ∀ v ∈ state.1, state.2.Has v) rows _ ⟨closed.extends_self, by simp⟩ ?_
    rintro ⟨refs, grown⟩ ⟨extends_, good⟩ row member
    have next : grown.Extends (grown.newArray row.toArray).2 :=
      Heap.newArray_extends extends_.closed fun v stored =>
        extends_.has (live row member v (List.mem_toArray.mp stored))
    refine ⟨extends_.trans next, fun v added => ?_⟩
    rcases Array.mem_push.mp added with old | rfl
    · exact next.has (good v old)
    · exact Heap.newArray_has grown row.toArray
  obtain ⟨extends_, good⟩ := collected
  exact ⟨extends_.trans (Heap.newArray_extends extends_.closed good), Heap.newArray_has _ _⟩

/-- A cell that is missing reads as null. -/
theorem getD_has {row : List Value} {i : Nat} (live : ∀ v ∈ row, heap.Has v) :
    heap.Has (row.getD i .null) := by
  rw [List.getD_eq_getElem?_getD]
  cases found : row[i]? with
  | none => trivial
  | some v => exact live v (List.mem_of_getElem? found)

theorem tableElement_extends {r : TableRef} (done : tableElement heap r index = .ok (v, heap'))
    (closed : heap.Closed) (has : heap.Has (.table r)) : heap.Extends heap' ∧ heap'.Has v := by
  unfold tableElement at done
  split at done
  · rename_i name
    simp only at done
    split at done
    · cases done
      exact rowArrays_extends closed (closed.table r)
    · split at done
      · cases done
        refine ⟨Heap.newArray_extends closed fun v member => ?_, Heap.newArray_has _ _⟩
        obtain ⟨header, _, rfl⟩ := List.mem_map.mp (List.mem_toArray.mp member)
        trivial
      · split at done
        · cases done
          exact ⟨closed.extends_self, has⟩
        · cases done
  · rename_i x
    obtain ⟨n, _, done⟩ := ok_of_bind done
    split at done
    · rename_i object found
      cases done
      obtain ⟨row, stored, rfl⟩ := Option.map_eq_some_iff.mp found
      refine ⟨Heap.newObject_extends closed fun field member => ?_, Heap.newObject_has _ _⟩
      have cell := List.of_mem_zip (Dictionary.mem_ofEntries member)
      exact closed.table r row (List.mem_of_getElem? stored) field.2 cell.2
    · cases done
  · cases done

/-- Element access answers with something that the container holds, or with a new container. -/
theorem element_extends (done : element files heap container index = .ok (v, heap'))
    (closed : heap.Closed) (has : heap.Has container) : heap.Extends heap' ∧ heap'.Has v := by
  unfold element at done
  cases container with
  | array r =>
      obtain ⟨n, _, done⟩ := ok_of_bind done
      split at done
      · rename_i found
        cases done
        exact ⟨closed.extends_self, closed.array r v (Array.mem_of_getElem? found)⟩
      · cases done
  | table r => exact tableElement_extends done closed has
  | object r =>
      simp only at done
      split at done
      · split at done
        · rename_i found
          cases done
          exact ⟨closed.extends_self, closed.object r _ (Dictionary.mem_of_get? found)⟩
        · cases done
      · cases done
  | column r name =>
      obtain ⟨n, _, done⟩ := ok_of_bind done
      split at done
      · cases done
      · rename_i cells column
        split at done
        · rename_i found
          cases done
          refine ⟨closed.extends_self, ?_⟩
          obtain ⟨i, _, rfl⟩ := Option.map_eq_some_iff.mp column
          obtain ⟨row, stored, rfl⟩ := List.mem_map.mp (List.mem_of_getElem? found)
          exact getD_has fun v => closed.table r row stored v
        · cases done
  | path p =>
      simp only at done
      split at done
      · obtain ⟨w, property, done⟩ := ok_of_bind done
        cases done
        exact ⟨closed.extends_self, pathProperty_has property heap⟩
      · cases done
  | _ => cases done

end Operation

end TableMachine
