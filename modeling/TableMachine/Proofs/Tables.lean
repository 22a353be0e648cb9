import TableMachine.Proofs.Natives

/-! # Tables that only grow

Nothing a program can do takes a row from a table or changes a header. Rows come out of a table as copies, in
new arrays and objects, and the one way in is to add a row of the right length at the end. A column is named by a
header when it is made. Here this is shown of every operation on the heap: of the allocations and writes, of deep
copies, of the operators and of the built-in natives. Each is compared with the heap that the running instruction
began with, the `origin`.
-/

namespace TableMachine

/-! ## Tables -/

namespace Table

variable {t t' : Table} {name : Text} {row : List Value}

/-- Every row has one cell per header, and the column index is that of the headers. -/
structure Regular (t : Table) : Prop where
  indexed : t.indexed = t.headers
  cells : ∀ row ∈ t.rows, row.length = t.headers.length

/-- `t'` is `t` with further rows, perhaps under another name. -/
structure Grows (t t' : Table) : Prop where
  headers : t'.headers = t.headers
  rows : t.rows <+: t'.rows

theorem Grows.refl (t : Table) : t.Grows t := ⟨rfl, List.prefix_rfl⟩

theorem Grows.trans {t'' : Table} (first : t.Grows t') (second : t'.Grows t'') : t.Grows t'' :=
  ⟨second.headers.trans first.headers, first.rows.trans second.rows⟩

theorem ofHeaders_regular (headers : List Text) : (ofHeaders headers).Regular := ⟨rfl, by simp [ofHeaders]⟩

theorem Regular.columnIndex?_eq (regular : t.Regular) (name : Text) :
    t.columnIndex? name = t.headers.idxOf? name := by
  unfold columnIndex? refreshed
  split
  · rfl
  · rw [regular.indexed]

theorem Regular.hasColumn_iff (regular : t.Regular) : t.hasColumn name = true ↔ name ∈ t.headers := by
  unfold hasColumn
  rw [regular.columnIndex?_eq, List.isSome_idxOf?]

theorem Regular.addRow? (regular : t.Regular) (added : t.addRow? row = some t') :
    t'.Regular ∧ t.Grows t' ∧ t'.rows = t.rows ++ [row] := by
  unfold Table.addRow? at added
  split at added
  · rename_i length
    cases added
    refine ⟨⟨regular.indexed, fun r member => ?_⟩, ⟨rfl, List.prefix_append _ _⟩, rfl⟩
    rcases List.mem_append.mp member with old | new
    · exact regular.cells r old
    · rw [List.mem_singleton.mp new]
      exact length
  · cases added

theorem Regular.copyTable (regular : t.Regular) (cell : Value → Value) : (Heap.copyTable cell t).Regular := by
  refine ⟨rfl, fun row member => ?_⟩
  obtain ⟨old, stored, rfl⟩ := List.mem_map.mp member
  rw [List.length_map]
  exact regular.cells old stored

end Table

/-! ## Heaps -/

namespace Heap

variable {heap heap' origin : Heap} {v : Value}

/-- A column is named by a header of its table. -/
def Names (heap : Heap) : Value → Prop
  | .column r name => name ∈ (heap.table r).headers
  | _ => True

/-- Every table of `heap` is in `heap'`, where it may have further rows. -/
structure Grows (heap heap' : Heap) : Prop where
  size : heap.tables.size ≤ heap'.tables.size
  tables : ∀ r : TableRef, r.id < heap.tables.size → (heap.table r).Grows (heap'.table r)

end Heap

/-- The table is regular, and columns in its cells have headers in `origin`. -/
structure Table.Tabular (t : Table) (origin : Heap) : Prop extends t.Regular where
  named : ∀ row ∈ t.rows, ∀ v ∈ row, origin.Names v

theorem Table.ofHeaders_tabular (headers : List Text) (origin : Heap) : (ofHeaders headers).Tabular origin :=
  ⟨ofHeaders_regular headers, by simp [ofHeaders]⟩

namespace Heap

variable {heap heap' origin : Heap} {v : Value}

/-- The heap has grown out of `origin`, its tables are regular, and the columns in its containers have headers in
`origin`. -/
structure Tabular (heap origin : Heap) : Prop where
  grows : origin.Grows heap
  array : ∀ r, ∀ v ∈ heap.array r, origin.Names v
  object : ∀ r, ∀ field ∈ (heap.object r).entries, origin.Names field.2
  table : ∀ r, (heap.table r).Tabular origin

theorem Grows.refl (heap : Heap) : heap.Grows heap := ⟨Nat.le_refl _, fun _ _ => .refl _⟩

theorem Grows.trans (first : origin.Grows heap) (second : heap.Grows heap') : origin.Grows heap' where
  size := Nat.le_trans first.size second.size
  tables := fun r inside =>
    (first.tables r inside).trans (second.tables r (Nat.lt_of_lt_of_le inside first.size))

theorem Grows.of_tables (grows : origin.Grows heap) (same : heap'.tables = heap.tables) :
    origin.Grows heap' := by
  have table : ∀ r, heap'.table r = heap.table r := fun r => congrArg (·.getD r.id (.ofHeaders [])) same
  refine ⟨same ▸ grows.size, fun r inside => ?_⟩
  rw [table r]
  exact grows.tables r inside

/-- Nothing is written where there is no table, so even at the reference the old one may be read. -/
theorem setTable_table_cases (heap : Heap) (q : TableRef) (t : Table) (r : TableRef) :
    (heap.setTable q t).table r = heap.table r ∨ r = q ∧ (heap.setTable q t).table r = t := by
  by_cases same : r = q
  · exact (getD_setIfInBounds heap.tables t (.ofHeaders []) q.id r.id).imp_right fun new => ⟨same, new⟩
  · refine .inl ?_
    have apart : q.id ≠ r.id := fun equal => same (by cases r; cases q; cases equal; rfl)
    show (heap.tables.setIfInBounds q.id t).getD r.id _ = heap.tables.getD r.id _
    rw [Array.getD_eq_getD_getElem?, Array.getD_eq_getD_getElem?, Array.getElem?_setIfInBounds_ne apart]

theorem lt_of_mem_headers {r : TableRef} {name : Text} (member : name ∈ (heap.table r).headers) :
    r.id < heap.tables.size := by
  -- A reference to nothing reads as a table without headers.
  apply Nat.lt_of_not_le
  intro outside
  rw [Heap.table, Array.getD_eq_getD_getElem?, Array.getElem?_eq_none outside] at member
  cases member

theorem Grows.names (grows : heap.Grows heap') (named : heap.Names v) : heap'.Names v := by
  cases v with
  | column r name =>
      have named : name ∈ (heap.table r).headers := named
      show name ∈ (heap'.table r).headers
      rw [(grows.tables r (lt_of_mem_headers named)).headers]
      exact named
  | _ => trivial

/-- What refers to nothing is no column. -/
theorem names_of_has (has : ({} : Heap).Has v) (origin : Heap) : origin.Names v := by
  cases v with
  | column r name => exact absurd has (Nat.not_lt_zero _)
  | _ => trivial

theorem empty_tabular : ({} : Heap).Tabular {} := by
  refine ⟨.refl _, fun r v member => ?_, fun r field member => ?_, fun r => Table.ofHeaders_tabular [] _⟩
  · simp [Heap.array] at member
  · simp [Heap.object] at member

/-- The heap on its own, as the next instruction finds it. -/
theorem Tabular.settled (tabular : heap.Tabular origin) : heap.Tabular heap where
  grows := .refl heap
  array := fun r v member => tabular.grows.names (tabular.array r v member)
  object := fun r field member => tabular.grows.names (tabular.object r field member)
  table := fun r => ⟨(tabular.table r).toRegular,
    fun row stored v member => tabular.grows.names ((tabular.table r).named row stored v member)⟩

namespace Tabular

/-! ### Changes of arrays and objects -/

theorem newArray (tabular : heap.Tabular origin) {elements : Array Value}
    (named : ∀ v ∈ elements, origin.Names v) : (heap.newArray elements).2.Tabular origin := by
  refine ⟨tabular.grows.of_tables rfl, fun r v member => ?_, tabular.object, tabular.table⟩
  have member : v ∈ (heap.arrays.push elements).getD r.id #[] := member
  rcases getD_push heap.arrays elements #[] r.id with old | new
  · rw [old] at member
    exact tabular.array r v member
  · rw [new] at member
    exact named v member

theorem newObject (tabular : heap.Tabular origin) {object : Object}
    (named : ∀ field ∈ object.entries, origin.Names field.2) : (heap.newObject object).2.Tabular origin := by
  refine ⟨tabular.grows.of_tables rfl, tabular.array, fun r field member => ?_, tabular.table⟩
  have member : field ∈ ((heap.objects.push object).getD r.id .empty).entries := member
  rcases getD_push heap.objects object .empty r.id with old | new
  · rw [old] at member
    exact tabular.object r field member
  · rw [new] at member
    exact named field member

theorem append (tabular : heap.Tabular origin) (r : ArrayRef) {values : List Value}
    (named : ∀ v ∈ values, origin.Names v) : (heap.append r values).Tabular origin := by
  refine ⟨tabular.grows.of_tables rfl, fun q v member => ?_, tabular.object, tabular.table⟩
  have member : v ∈ (heap.arrays.modify r.id (· ++ values.toArray)).getD q.id #[] := member
  rcases getD_modify heap.arrays #[] r.id q.id (· ++ values.toArray) with old | new
  · rw [old] at member
    exact tabular.array q v member
  · rw [new, Array.mem_append] at member
    rcases member with old | added
    · exact tabular.array q v old
    · exact named v (List.mem_toArray.mp added)

/-! ### Changes of tables -/

theorem newTable (tabular : heap.Tabular origin) (headers : List Text) :
    (heap.newTable (.ofHeaders headers)).2.Tabular origin := by
  refine ⟨tabular.grows.trans ⟨by simp [Heap.newTable], fun r inside => ?_⟩, tabular.array, tabular.object,
    fun r => ?_⟩
  · have same : (heap.newTable (.ofHeaders headers)).2.table r = heap.table r := by
      show (heap.tables.push _).getD r.id _ = heap.tables.getD r.id _
      rw [Array.getD_eq_getD_getElem?, Array.getD_eq_getD_getElem?, Array.getElem?_push_lt inside,
        Array.getElem?_eq_getElem inside]
    rw [same]
    exact .refl _
  · have cases_ : (heap.newTable (.ofHeaders headers)).2.table r = heap.table r ∨
        (heap.newTable (.ofHeaders headers)).2.table r = .ofHeaders headers :=
      getD_push heap.tables _ _ r.id
    rcases cases_ with old | new
    · rw [old]
      exact tabular.table r
    · rw [new]
      exact Table.ofHeaders_tabular headers origin

theorem setTable (tabular : heap.Tabular origin) {q : TableRef} {t : Table} (good : t.Tabular origin)
    (grows : (heap.table q).Grows t) : (heap.setTable q t).Tabular origin := by
  have cases_ := heap.setTable_table_cases q t
  refine ⟨tabular.grows.trans ⟨by simp [Heap.setTable], fun r _ => ?_⟩, tabular.array, tabular.object,
    fun r => ?_⟩
  · rcases cases_ r with old | ⟨rfl, new⟩
    · rw [old]
      exact .refl _
    · rw [new]
      exact grows
  · rcases cases_ r with old | ⟨_, new⟩
    · rw [old]
      exact tabular.table r
    · rw [new]
      exact good

theorem nameTable (tabular : heap.Tabular origin) (q : TableRef) (name : Text) :
    (heap.nameTable q name).Tabular origin := by
  have cases_ : ∀ r, (heap.nameTable q name).table r = heap.table r ∨
      (heap.nameTable q name).table r = { heap.table r with name := name } :=
    fun r => getD_modify heap.tables (.ofHeaders []) q.id r.id _
  refine ⟨tabular.grows.trans ⟨by simp [Heap.nameTable], fun r _ => ?_⟩, tabular.array, tabular.object,
    fun r => ?_⟩
  · rcases cases_ r with old | new
    · rw [old]
      exact .refl _
    · rw [new]
      exact ⟨rfl, List.prefix_rfl⟩
  · have good := tabular.table r
    rcases cases_ r with old | new
    · rw [old]
      exact good
    · rw [new]
      exact ⟨⟨good.indexed, good.cells⟩, good.named⟩

/-! ### Deep copies -/

/-- What a copy of a value names is what the value names: columns are not copied. -/
theorem names_relocate (named : origin.Names v) (heap : Heap) (refs : List Ref) :
    origin.Names (heap.relocate refs v) := by
  cases v with
  | array r | object r | table r =>
      simp only [relocate]
      split
      · trivial
      · trivial
  | column r name => exact named
  | _ => trivial

theorem deepClone (tabular : heap.Tabular origin) (w : Value) : (heap.deepClone w).2.Tabular origin := by
  have size := deepClone_tables_size heap w
  refine ⟨tabular.grows.trans ⟨by omega, fun r inside => ?_⟩, fun r v member => ?_, fun r field member => ?_,
    fun r => ?_⟩
  · have same : (heap.deepClone w).2.table r = heap.table r := by
      show (heap.tables ++ _).getD r.id _ = heap.tables.getD r.id _
      rw [Array.getD_eq_getD_getElem?, Array.getD_eq_getD_getElem?, Array.getElem?_append_left inside]
    rw [same]
    exact .refl _
  · rcases deepClone_array_cases heap w r with old | ⟨q, copy⟩
    · rw [old] at member
      exact tabular.array r v member
    · rw [copy] at member
      obtain ⟨y, stored, rfl⟩ := Array.mem_map.mp member
      exact names_relocate (tabular.array q y stored) _ _
  · rcases deepClone_object_cases heap w r with old | ⟨q, copy⟩
    · rw [old] at member
      exact tabular.object r field member
    · rw [copy] at member
      obtain ⟨f, stored, rfl⟩ := List.mem_map.mp member
      exact names_relocate (tabular.object q f stored) _ _
  · rcases deepClone_table_cases heap w r with old | ⟨q, copy⟩
    · rw [old]
      exact tabular.table r
    · rw [copy]
      refine ⟨(tabular.table q).toRegular.copyTable _, fun row member x cell => ?_⟩
      obtain ⟨cells, stored, rfl⟩ := List.mem_map.mp member
      obtain ⟨y, found, rfl⟩ := List.mem_map.mp cell
      exact names_relocate ((tabular.table q).named cells stored y found) _ _

end Tabular

end Heap

/-! ## Operations -/

/-- The fault is not that of a column whose table does not have it. -/
def Cause.SparesColumns : Cause → Prop
  | .columnMissing _ => False
  | _ => True

theorem Cause.SparesColumns.ne {cause : Cause} (spares : cause.SparesColumns) (name : Text) :
    cause ≠ .columnMissing name := by
  rintro rfl
  exact spares

namespace Operation

variable {heap heap' : Heap} {op : Opcode} {a b v container index : Value} {files : Files} {cause : Cause}
  {name : Text} {r : TableRef}

theorem binary_sparesColumns (failed : binary heap op a b = .error cause) : cause.SparesColumns := by
  unfold binary at failed
  split at failed
  · unfold add at failed
    split at failed <;> cases failed
    trivial
  · unfold divide at failed
    split at failed
    · split at failed <;> cases failed
      trivial
    · cases failed
    · cases failed
    · cases failed
      trivial
  · cases failed
  · cases failed
  iterate 4
    · unfold compare at failed
      split at failed <;> cases failed
      trivial
  · split at failed
    · unfold arithmetic at failed
      repeat' split at failed
      all_goals cases failed
      all_goals trivial
    · cases failed
      trivial

theorem negate_sparesColumns (failed : negate a = .error cause) : cause.SparesColumns := by
  unfold negate at failed
  split at failed <;> cases failed
  trivial

theorem member_sparesColumns (failed : member heap a b = .error cause) : cause.SparesColumns := by
  unfold member at failed
  split at failed <;> cases failed
  trivial

theorem position_sparesColumns {of_ : Indexed} (failed : position of_ v = .error cause) :
    cause.SparesColumns := by
  unfold position at failed
  repeat' split at failed
  all_goals cases failed
  all_goals trivial

theorem pathProperty_sparesColumns {path property : Text}
    (failed : pathProperty files path property = .error cause) : cause.SparesColumns := by
  unfold pathProperty at failed
  repeat' split at failed
  all_goals cases failed
  all_goals trivial

theorem arrayLength_sparesColumns (failed : arrayLength heap v = .error cause) (tabular : heap.Tabular heap)
    (named : heap.Names v) : cause.SparesColumns := by
  unfold arrayLength at failed
  split at failed
  · cases failed
  · rename_i r name
    rw [if_pos ((tabular.table r).hasColumn_iff.mpr named)] at failed
    cases failed
  · cases failed
    trivial

/-- The answer of an operation: a value and a heap that has grown out of `origin`, or a fault other than that of a
missing column. -/
def Answers (origin : Heap) : Except Cause (Value × Heap) → Prop
  | .ok (v, heap) => heap.Tabular origin ∧ origin.Names v
  | .error cause => cause.SparesColumns

theorem answers_of_position {of_ : Indexed} {next : Nat → Except Cause (Value × Heap)}
    (answers : ∀ n, Answers heap (next n)) : Answers heap (position of_ index >>= next) := by
  cases found : position of_ index with
  | error cause => exact position_sparesColumns found
  | ok n => exact answers n

theorem rowArrays_tabular (tabular : heap.Tabular heap) {rows : List (List Value)}
    (named : ∀ row ∈ rows, ∀ v ∈ row, heap.Names v) :
    (rowArrays heap rows).2.Tabular heap ∧ heap.Names (rowArrays heap rows).1 := by
  unfold rowArrays
  generalize folded : rows.foldl _ (#[], heap) = state
  -- The arrays that hold the rows so far are no columns; the cells in them are those of the table.
  have collected : state.2.Tabular heap ∧ ∀ v ∈ state.1, heap.Names v := by
    rw [← folded]
    refine List.foldlRecOn (motive := fun (state : Array Value × Heap) =>
      state.2.Tabular heap ∧ ∀ v ∈ state.1, heap.Names v) rows _ ⟨tabular, by simp⟩ ?_
    rintro ⟨refs, grown⟩ ⟨kept, refs_named⟩ row member
    refine ⟨kept.newArray fun v stored => named row member v (List.mem_toArray.mp stored), fun v added => ?_⟩
    rcases Array.mem_push.mp added with old | rfl
    · exact refs_named v old
    · trivial
  exact ⟨collected.1.newArray collected.2, trivial⟩

/-- A table answers with copies of its rows and headers, or with a column that it has. -/
theorem tableElement_answers (tabular : heap.Tabular heap) : Answers heap (tableElement heap r index) := by
  unfold tableElement
  split
  · rename_i name
    simp only
    split
    · exact rowArrays_tabular tabular (tabular.table r).named
    · split
      · refine ⟨tabular.newArray fun v member => ?_, trivial⟩
        obtain ⟨header, _, rfl⟩ := List.mem_map.mp (List.mem_toArray.mp member)
        trivial
      · split
        · rename_i present
          exact ⟨tabular, (tabular.table r).hasColumn_iff.mp present⟩
        · trivial
  · refine answers_of_position fun n => ?_
    split
    · rename_i object found
      obtain ⟨row, stored, rfl⟩ := Option.map_eq_some_iff.mp found
      refine ⟨tabular.newObject fun field member => ?_, trivial⟩
      have cell := List.of_mem_zip (Dictionary.mem_ofEntries member)
      exact (tabular.table r).named row (List.mem_of_getElem? stored) field.2 cell.2
    · trivial
  · trivial

/-- A cell of a column that a header names; one that is missing reads as null. -/
theorem columnElement_answers (tabular : heap.Tabular heap) (named : heap.Names (.column r name)) (n : Nat) :
    Answers heap (match (heap.table r).column? name with
      | none => .error (.columnMissing name)
      | some cells =>
        match cells[n]? with
        | some v => .ok (v, heap)
        | none => .error (.columnIndexOutside n cells.length)) := by
  have present := (tabular.table r).hasColumn_iff.mpr named
  unfold Table.hasColumn at present
  obtain ⟨i, column⟩ := Option.isSome_iff_exists.mp present
  unfold Table.column?
  rw [column]
  simp only [Option.map_some]
  split
  · rename_i v found
    obtain ⟨row, stored, rfl⟩ := List.mem_map.mp (List.mem_of_getElem? found)
    refine ⟨tabular, ?_⟩
    rw [List.getD_eq_getElem?_getD]
    cases cell : row[i]? with
    | none => trivial
    | some v => exact (tabular.table r).named row stored v (List.mem_of_getElem? cell)
  · trivial

theorem element_answers (tabular : heap.Tabular heap) (named : heap.Names container) :
    Answers heap (element files heap container index) := by
  unfold element
  cases container with
  | array r =>
      refine answers_of_position fun n => ?_
      split
      · rename_i found
        exact ⟨tabular, tabular.array r _ (Array.mem_of_getElem? found)⟩
      · trivial
  | table r => exact tableElement_answers tabular
  | object r =>
      simp only
      split
      · split
        · rename_i found
          exact ⟨tabular, tabular.object r _ (Dictionary.mem_of_get? found)⟩
        · trivial
      · trivial
  | column r name => exact answers_of_position (columnElement_answers tabular named)
  | path p =>
      simp only
      split
      · rename_i property
        cases found : pathProperty files p property with
        | error cause => exact pathProperty_sparesColumns found
        | ok v => exact ⟨tabular, Heap.names_of_has (pathProperty_has found {}) heap⟩
      · trivial
  | _ => trivial

end Operation

/-! ## Natives -/

/-- The report leaves a heap that has grown, and its value, or its fault, is in order. -/
structure Report.Tabular (report : Report) (origin : Heap) : Prop where
  heap : report.host.heap.Tabular origin
  value : origin.Names report.value
  cause : ∀ cause, report.cause = some cause → cause.SparesColumns

/-- The native leaves tables as they are, or with further rows. -/
def Native.Tabular (native : Native) : Prop :=
  ∀ (host : Host) (arguments : List Value), host.heap.Tabular host.heap → host.channel.cause = none →
    (∀ v ∈ arguments, host.heap.Names v) → (native.run host arguments).Tabular host.heap

namespace Native

variable {host : Host} {origin : Heap} {name : Text} {v : Value}

theorem answer_tabular (tabular : host.heap.Tabular origin) (silent : host.channel.cause = none)
    (named : origin.Names v) : (answer host v).Tabular origin :=
  ⟨tabular, named, fun _ reported => by cases silent.symm.trans reported⟩

/-- A fault that is reported where none was before. -/
theorem raise_tabular (tabular : host.heap.Tabular origin) (silent : host.channel.cause = none)
    {cause : Cause} (spares : cause.SparesColumns) : ((answer host .null).raise cause).Tabular origin := by
  refine ⟨tabular, trivial, fun found reported => ?_⟩
  have first : ((answer host .null).raise cause).cause = some cause := by
    show host.channel.cause.orElse _ = _
    rw [silent]
    rfl
  cases first.symm.trans reported
  exact spares

theorem refuse_tabular (tabular : host.heap.Tabular origin) (silent : host.channel.cause = none)
    (t : ErrorType) (message : Text) : (refuse host t message).Tabular origin :=
  raise_tabular tabular silent trivial

theorem failure_tabular (tabular : host.heap.Tabular origin) (silent : host.channel.cause = none)
    (t : ErrorType) (message : Text) : (failure host t message).Tabular origin :=
  raise_tabular tabular silent trivial

theorem one_tabular {run : Host → Value → Report} (good : ∀ (host : Host) (v : Value),
      host.heap.Tabular host.heap → host.channel.cause = none → host.heap.Names v →
        (run host v).Tabular host.heap) : (one name run).Tabular := by
  intro host arguments tabular silent named
  unfold one
  simp only
  split
  · exact good host _ tabular silent (named _ List.mem_cons_self)
  · exact refuse_tabular tabular silent _ _

theorem two_tabular {run : Host → Value → Value → Report} (good : ∀ (host : Host) (v w : Value),
      host.heap.Tabular host.heap → host.channel.cause = none → host.heap.Names v →
        host.heap.Names w → (run host v w).Tabular host.heap) : (two name run).Tabular := by
  intro host arguments tabular silent named
  unfold two
  simp only
  split
  · exact good host _ _ tabular silent (named _ (by simp)) (named _ (by simp))
  · exact refuse_tabular tabular silent _ _

theorem print_tabular : print.Tabular := by
  intro host arguments tabular silent _
  unfold print printLine?
  simp only
  split
  · rename_i printed
    split at printed
    · cases printed
    · cases printed
      exact answer_tabular tabular silent trivial
  · exact failure_tabular tabular silent _ _

theorem len_tabular : len.Tabular := by
  refine one_tabular fun host v tabular silent _ => ?_
  cases v with
  | array r | table r | string t | object r => exact answer_tabular tabular silent trivial
  | _ => exact refuse_tabular tabular silent _ _

theorem table_tabular : table.Tabular := by
  refine one_tabular fun host v tabular silent _ => ?_
  cases v with
  | array r =>
      simp only
      split
      · rename_i names _
        exact answer_tabular (tabular.newTable names) silent trivial
      · exact refuse_tabular tabular silent _ _
  | _ => exact refuse_tabular tabular silent _ _

theorem addRow_tabular : addRow.Tabular := by
  refine two_tabular fun host v w tabular silent _ _ => ?_
  split
  · rename_i t r _ _
    simp only
    split
    · rename_i table added
      have old := tabular.table t
      obtain ⟨regular, grows, rows⟩ := old.toRegular.addRow? added
      -- The cells of the new row are the elements of the array that was given.
      have good : table.Tabular host.heap := by
        refine ⟨regular, fun row member x cell => ?_⟩
        rw [rows] at member
        rcases List.mem_append.mp member with earlier | last
        · exact old.named row earlier x cell
        · rw [List.mem_singleton.mp last] at cell
          exact tabular.array r x (Array.mem_toList_iff.mp cell)
      exact answer_tabular (tabular.setTable good grows) silent trivial
    · exact failure_tabular tabular silent _ _
  · exact refuse_tabular tabular silent _ _

theorem relate_tabular : relate.Tabular := by
  refine two_tabular fun host v w tabular silent _ _ => ?_
  split
  · rename_i report related
    unfold Report.relate? at related
    obtain ⟨_, _, related⟩ := Option.bind_eq_some_iff.mp related
    obtain ⟨_, _, related⟩ := Option.bind_eq_some_iff.mp related
    cases related
    exact ⟨tabular, trivial, fun _ reported => by cases silent.symm.trans reported⟩
  · exact refuse_tabular tabular silent _ _

theorem primaryKey_tabular : primaryKey.Tabular := by
  refine one_tabular fun host v tabular silent _ => ?_
  split
  · rename_i report declared
    unfold Report.primaryKey? at declared
    obtain ⟨_, _, declared⟩ := Option.bind_eq_some_iff.mp declared
    cases declared
    exact ⟨tabular, trivial, fun _ reported => by cases silent.symm.trans reported⟩
  · exact refuse_tabular tabular silent _ _

theorem push_tabular : push.Tabular := by
  refine two_tabular fun host v w tabular silent _ added => ?_
  cases v with
  | array r =>
      refine answer_tabular (tabular.append r fun x member => ?_) silent trivial
      rw [List.mem_singleton.mp member]
      exact added
  | _ => exact refuse_tabular tabular silent _ _

theorem readFile_tabular : readFile.Tabular := by
  refine one_tabular fun host v tabular silent _ => ?_
  split
  iterate 2
    · split
      · exact answer_tabular tabular silent trivial
      · exact failure_tabular tabular silent _ _
  · exact refuse_tabular tabular silent _ _

theorem builtins_tabular : ∀ native ∈ builtins, native.Tabular := by
  simp only [builtins, List.forall_mem_cons]
  exact ⟨print_tabular, len_tabular, table_tabular, addRow_tabular, relate_tabular, primaryKey_tabular,
    push_tabular, readFile_tabular, by simp⟩

end Native

end TableMachine
