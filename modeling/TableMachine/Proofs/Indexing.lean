import TableMachine.Proofs.Exporting

/-! # Which related columns are indexed

An export asks for an index on both ends of every relation. Its name is made of the names of the table and of the
column, with a line between them that may also be part of the names. So different columns can have one index name,
and an index whose name is taken is not created: it stands on the column that asked first.

An index that the export found keeps its name, too. The indexes are followed from statement to statement, as those
found and those of the columns that have asked so far. `Indexes` says which of them have an index. Tables and rows
change none.
-/

namespace TableMachine.Export

variable {heap : Heap} {stamp path name : Text} {s : Snapshot} {before db db' : Database} {files files' : Files}
  {engine : Engine} {exported : List (Text × Table)} {asked : List (Text × Text)} {e f : Text × Text}
  {found : List Database.Index}

/-- The two columns of a relation, each with its table. -/
def ends (r : Relation) : List (Text × Text) :=
  [(r.sourceTable, r.sourceColumn), (r.targetTable, r.targetColumn)]

/-- The column is one of an exported table. -/
def isColumn (exported : List (Text × Table)) (e : Text × Text) : Bool :=
  (findTable? exported e.1).any fun t => t.hasColumn e.2

/-- The columns of exported tables that relations are about, in the order in which they ask for an index. -/
def related (exported : List (Text × Table)) (relations : List Relation) : List (Text × Text) :=
  (relations.flatMap ends).filter (isColumn exported)

/-- The indexes of the two columns have one name. -/
def sameIndex (e f : Text × Text) : Bool := Database.sameName (indexName e.1 e.2) (indexName f.1 f.2)

/-- No index of the list has the name of the column's. -/
def isFree (found : List Database.Index) (e : Text × Text) : Bool :=
  !found.any fun i => Database.sameName i.name (indexName e.1 e.2)

/-- The indexes after those that were found are those of the columns that were the first to ask for one under its
name, where the name was free. -/
structure Indexes (found : List Database.Index) (asked : List (Text × Text)) (indexes : List Database.Index) :
    Prop where
  names : ∀ i ∈ indexes, i.name = indexName i.table i.column
  columns : ∀ e : Text × Text, (∃ i ∈ indexes, i.table = e.1 ∧ i.column = e.2) ↔
    isFree found e = true ∧ asked.find? (sameIndex e) = some e

theorem sameIndex_self (e : Text × Text) : sameIndex e e = true := Database.sameName_self _

/-- Columns whose indexes have one name are looked for alike. -/
theorem sameIndex_congr (same : sameIndex e f = true) : sameIndex e = sameIndex f := by
  funext g
  unfold sameIndex Database.sameName at same ⊢
  rw [beq_iff_eq.mp same]

/-- A column that asks last has its index if it is the first to ask under its name. -/
theorem first_append : (asked ++ [f]).find? (sameIndex e) = some e ↔
    asked.find? (sameIndex e) = some e ∨ asked.find? (sameIndex f) = none ∧ f = e := by
  rw [List.find?_append]
  cases found : asked.find? (sameIndex e) with
  | some g =>
      rw [Option.some_or]
      refine ⟨.inl, ?_⟩
      rintro (first | ⟨unasked, rfl⟩)
      · exact first
      · cases unasked.symm.trans found
  | none =>
      rw [Option.none_or]
      constructor
      · intro last
        cases List.mem_singleton.mp (List.mem_of_find?_eq_some last)
        exact .inr ⟨found, rfl⟩
      · rintro (first | ⟨-, rfl⟩)
        · cases first
        · exact List.find?_cons_of_pos (sameIndex_self f)

theorem isFree_congr (same : sameIndex e f = true) : isFree found e = isFree found f := by
  unfold sameIndex Database.sameName at same
  unfold isFree Database.sameName
  rw [beq_iff_eq.mp same]

namespace Indexes

variable {indexes : List Database.Index}

theorem empty : Indexes found [] [] where
  names _ member := absurd member List.not_mem_nil
  columns _ := ⟨fun ⟨_, member, _⟩ => absurd member List.not_mem_nil, fun ⟨_, first⟩ => nomatch first⟩

/-- A name that was free is taken if a column has asked for it. -/
theorem taken_iff (holds : Indexes found asked indexes) (free : isFree found e = true) :
    (indexes.any fun i => Database.sameName i.name (indexName e.1 e.2)) = true ↔
      (asked.find? (sameIndex e)).isSome := by
  have other (i : Database.Index) (member : i ∈ indexes) :
      Database.sameName i.name (indexName e.1 e.2) = sameIndex (i.table, i.column) e := by
    rw [holds.names i member]
    rfl
  rw [List.any_eq_true]
  constructor
  · rintro ⟨i, member, same⟩
    rw [other i member] at same
    have first := ((holds.columns (i.table, i.column)).mp ⟨i, member, rfl, rfl⟩).2
    rw [← sameIndex_congr same, first]
    rfl
  · intro asks
    obtain ⟨f, first⟩ := Option.isSome_iff_exists.mp asks
    have alike := List.find?_some first
    have same := sameIndex_congr alike
    obtain ⟨i, member, table, column⟩ :=
      (holds.columns f).mpr ⟨by rwa [← isFree_congr alike], by rwa [← same]⟩
    refine ⟨i, member, ?_⟩
    rw [other i member, table, column, ← same]
    exact sameIndex_self e

/-- A column whose index exists already, by whomever it was created, changes nothing. -/
theorem asks_again (holds : Indexes found asked indexes)
    (taken : isFree found f = true → (asked.find? (sameIndex f)).isSome) : Indexes found (asked ++ [f]) indexes where
  names := holds.names
  columns e := by
    rw [holds.columns e, first_append]
    refine and_congr_right fun free => ⟨.inl, fun first => first.resolve_right ?_⟩
    rintro ⟨unasked, rfl⟩
    have asks := taken free
    rw [unasked] at asks
    cases asks

/-- The index of a column that is the first to ask under its name is created. -/
theorem asks_first {index : Database.Index} (holds : Indexes found asked indexes)
    (name : index.name = indexName index.table index.column)
    (free : isFree found (index.table, index.column) = true)
    (unasked : asked.find? (sameIndex (index.table, index.column)) = none) :
    Indexes found (asked ++ [(index.table, index.column)]) (indexes ++ [index]) where
  names := List.forall_mem_append.mpr ⟨holds.names, List.forall_mem_singleton.mpr name⟩
  columns e := by
    rw [first_append, and_or_left, ← holds.columns e]
    simp only [List.mem_append, List.mem_singleton, or_and_right, exists_or, exists_eq_left, unasked, true_and,
      Prod.ext_iff]
    refine or_congr_right ⟨fun same => ⟨?_, same⟩, And.right⟩
    rwa [show e = (index.table, index.column) from Prod.ext same.1.symm same.2.symm]

end Indexes

/-- The indexes of a database, those that were found first. -/
def Indexed (found : List Database.Index) (asked : List (Text × Text)) (db : Database) : Prop :=
  ∃ indexes, db.indexes = found ++ indexes ∧ Indexes found asked indexes

namespace Indexed

/-- An index is created on a column that is the first to ask under a free name, and on no other one. -/
theorem createIndex {index : Database.Index} (holds : Indexed found asked db)
    (name : index.name = indexName index.table index.column) (created : db.createIndex index = .ok db') :
    Indexed found (asked ++ [(index.table, index.column)]) db' := by
  obtain ⟨indexes, listed, holds⟩ := holds
  have any_eq : (db.indexes.any fun i => Database.sameName i.name index.name) =
      (!isFree found (index.table, index.column) ||
        indexes.any fun i => Database.sameName i.name (indexName index.table index.column)) := by
    rw [listed, List.any_append, isFree, Bool.not_not, name]
  unfold Database.createIndex at created
  split at created
  · cases created
  · split at created
    · rename_i present
      cases created
      refine ⟨indexes, listed, holds.asks_again fun free => (holds.taken_iff free).mp ?_⟩
      rwa [any_eq, free, Bool.not_true, Bool.false_or] at present
    · rename_i absent
      cases created
      rw [any_eq, Bool.or_eq_true, not_or, Bool.not_eq_true, Bool.not_eq_false'] at absent
      have unasked := Option.not_isSome_iff_eq_none.mp (mt (holds.taken_iff absent.1).mpr absent.2)
      refine ⟨indexes ++ [index], ?_, holds.asks_first name absent.1 unasked⟩
      rw [listed, List.append_assoc]

theorem addIndex (holds : Indexed found asked db) (added : Export.addIndex exported db e.1 e.2 = .ok db') :
    Indexed found (asked ++ [e].filter (isColumn exported)) db' := by
  unfold Export.addIndex at added
  split at added
  · rename_i unknown
    cases added
    have other : isColumn exported e = false := by rw [isColumn, unknown]; rfl
    rw [List.filter_cons_of_neg (by rw [other]; decide), List.filter_nil, List.append_nil]
    exact holds
  · rename_i t known
    have column : isColumn exported e = t.hasColumn e.2 := by rw [isColumn, known]; rfl
    split at added
    · rename_i lacks
      cases added
      rw [List.filter_cons_of_neg (by rw [column]; simpa using lacks), List.filter_nil, List.append_nil]
      exact holds
    · rename_i has
      rw [List.filter_cons_of_pos (by rw [column]; simpa using has), List.filter_nil]
      exact holds.createIndex rfl (ok_of_mapError added)

theorem addRelation {r : Relation} (holds : Indexed found asked db)
    (added : Export.addRelation exported db r = .ok db') :
    Indexed found (asked ++ (ends r).filter (isColumn exported)) db' := by
  obtain ⟨between, source, target⟩ := ok_of_bind added
  have start : Indexed found asked (db.insert relationRows.name [relationRow r]) := holds
  have both := (start.addIndex (e := (r.sourceTable, r.sourceColumn)) source).addIndex
    (e := (r.targetTable, r.targetColumn)) target
  rw [List.append_assoc, ← List.filter_append] at both
  exact both

end Indexed

/-! ## From end to end -/

theorem indexes_foldl_replace {α : Type} (row : α → List Cell) (items : List α) (db : Database) :
    (items.foldl (fun db x => db.replace name (row x)) db).indexes = db.indexes := by
  induction items generalizing db with
  | nil => rfl
  | cons x rest ih => exact ih _

theorem database_indexed (made : database before heap stamp s = .ok db) :
    Indexed before.indexes (related (tables heap s) s.relations) db := by
  -- Statements before the relations leave the indexes that were found, and so do those after them.
  obtain ⟨first, created, made⟩ := ok_of_bind made
  obtain ⟨second, written, made⟩ := ok_of_bind made
  obtain ⟨third, created', made⟩ := ok_of_bind made
  obtain ⟨fourth, added, made⟩ := ok_of_bind made
  obtain ⟨fifth, created'', made⟩ := ok_of_bind made
  cases made
  have same : third.indexes = before.indexes := by
    rw [(addCatalogue_ok created').2, (foldlM_addTable_ok written).2, indexes_foldl_replace,
      (addCatalogue_ok created).2]
  have start : Indexed before.indexes [] third := ⟨[], by rw [same, List.append_nil], .empty⟩
  obtain ⟨indexes, listed, holds⟩ : Indexed before.indexes (related (tables heap s) s.relations) fourth := by
    refine holds_of_foldlM (fun done => Indexed before.indexes (related (tables heap s) done)) ?_ [] start added
    intro done r now next holds added
    rw [related, List.flatMap_append, List.flatMap_singleton, List.filter_append]
    exact holds.addRelation added
  exact ⟨indexes, (addCatalogue_ok created'').2.trans listed, holds⟩

/-! ## Columns of exported tables -/

theorem nodup_tables (names : (s.globals.map (·.name)).Nodup) : ((tables heap s).map (·.1)).Nodup := by
  refine names.sublist ?_
  rw [tables]
  induction s.globals with
  | nil => exact .slnil
  | cons v rest ih =>
      rw [List.filterMap_cons]
      split
      · exact ih.cons _
      · rename_i named found
        have same : named.1 = v.name := by
          split at found
          · split at found
            · cases found
            · cases found
              rfl
          · cases found
        rw [List.map_cons, List.map_cons, same]
        exact ih.cons_cons _

theorem findTable?_tables (names : (s.globals.map (·.name)).Nodup) {v : Variable} (member : v ∈ s.globals) {t : Table}
    (shown : Exported heap v t) : findTable? (tables heap s) v.name = some t := by
  have listed : (v.name, t) ∈ tables heap s := by
    obtain ⟨⟨r, held, rfl⟩, name, -⟩ := shown
    refine List.mem_filterMap.mpr ⟨v, member, ?_⟩
    rw [held]
    exact if_neg (Bool.eq_false_iff.mp name)
  obtain ⟨before, after, split⟩ := List.append_of_mem (List.mem_reverse.mpr listed)
  have apart : ((tables heap s).map (·.1)).reverse.Nodup := List.nodup_reverse.mpr (nodup_tables names)
  rw [← List.map_reverse, split, List.map_append, List.nodup_append] at apart
  rw [findTable?, List.lookup_eq_some_iff]
  refine ⟨before, after, split, fun other earlier => ?_⟩
  have different := apart.2.2 other.1 (List.mem_map_of_mem earlier) v.name (by simp)
  simpa using different.symm

/-- If variables have different names and no header was replaced since the last look-up, these are the columns
below the headers. -/
theorem isColumn_iff (names : (s.globals.map (·.name)).Nodup) {v : Variable} (member : v ∈ s.globals) {t : Table}
    (shown : Exported heap v t) (current : t.refreshed.indexed = t.headers) (column : Text) :
    isColumn (tables heap s) (v.name, column) = true ↔ column ∈ t.headers := by
  rw [isColumn, findTable?_tables names member shown, Option.any_some, Table.hasColumn, Table.columnIndex?, current,
    List.isSome_idxOf?]

namespace Homonyms

def store : Heap where
  tables := #[⟨"left", ["b_c", "d"], [], ["b_c", "d"]⟩, ⟨"right", ["c"], [], ["c"]⟩]

def snapshot : Snapshot where
  globals := [⟨0, "a", true, .table ⟨0⟩⟩, ⟨1, "a_b", true, .table ⟨1⟩⟩]
  relations := [⟨"a", "b_c", "a_b", "c"⟩, ⟨"a_b", "c", "a", "d"⟩]
  primaryKeys := []

def saved : Option ExportError × Files := save .standard (.empty []) "homonyms.db" "now" store (some snapshot)

def earlier : Database where
  tables := [⟨"kept", "CREATE TABLE kept (x TEXT)", [("x", .text)], []⟩]
  indexes := [⟨"IDX_A_B_C", "CREATE INDEX IDX_A_B_C ON kept (x)", "kept", "x"⟩]
  wellNamed := ⟨by decide, by decide⟩

def disk : Files := ⟨[], [([↑"homonyms.db"], .database earlier)]⟩

def added : Option ExportError × Files := save .standard disk "homonyms.db?x" "now" store (some snapshot)

end Homonyms

end TableMachine.Export
