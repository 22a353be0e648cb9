import TableMachine.Database.Basic

/-! # What statements do to a database

Creating a table puts it behind those that are there, and adding rows changes no name. A name stands for one
table, so the last table is found under its name, and rows that are added under the name of the last table go
to it alone.
-/

namespace TableMachine.Database

variable {db db' : Database} {name written statement : Text} {columns : List (Text × Affinity)}
variable {t : Table} {before : List Table} {cells : List Cell} {rows : List (List Cell)}

/-- Names that occur once, whatever the case of their letters, occur once. -/
theorem nodup_of_hasTwice {names : List Text} (once : hasTwice names = false) : names.Nodup := by
  induction names with
  | nil => exact List.nodup_nil
  | cons name rest ih =>
      simp only [hasTwice, Bool.or_eq_false_iff, List.any_eq_false] at once
      exact List.nodup_cons.mpr ⟨fun again => once.1 name again (sameName_self name), ih once.2⟩

theorem table?_eq (member : t ∈ db.tables) : db.table? t.name = some t := by
  obtain ⟨before, after, tables⟩ := List.append_of_mem member
  have apart := db.wellNamed.apart
  rw [tables, List.pairwise_append] at apart
  have earlier : before.find? (fun u => sameName u.name t.name) = none := by
    rw [List.find?_eq_none]
    intro u first
    rw [apart.2.2 u first t List.mem_cons_self]
    exact Bool.false_ne_true
  rw [table?, tables, List.find?_append, earlier, Option.none_or]
  exact List.find?_cons_of_pos (sameName_self t.name)

/-! ## Creating -/

/-- A table is created last and empty. -/
theorem createTable_ok (created : db.createTable name written statement columns = .ok db') :
    db'.tables = db.tables ++ [⟨name, statement, columns, []⟩] ∧ db'.indexes = db.indexes := by
  unfold createTable at created
  split at created
  · cases created
  · cases created
    exact ⟨rfl, rfl⟩

theorem createIndex_tables {index : Index} (created : db.createIndex index = .ok db') :
    db'.tables = db.tables := by
  unfold createIndex at created
  split at created
  · cases created
  · split at created <;> cases created <;> rfl

/-! ## Adding rows -/

/-- The rows of the last table change under its name, and no others. -/
theorem tables_changeRows_last (tables : db.tables = before ++ [t]) (rows : Table → List (List Cell)) :
    (db.changeRows t.name rows).tables = before ++ [{ t with rows := rows t }] := by
  have apart := db.wellNamed.apart
  rw [tables, List.pairwise_append] at apart
  have others : before.map (fun u => if sameName u.name t.name then { u with rows := rows u } else u) =
      before.map id := by
    refine List.map_congr_left fun u earlier => ?_
    rw [apart.2.2 u earlier t List.mem_cons_self]
    rfl
  show db.tables.map (fun u => if sameName u.name t.name then { u with rows := rows u } else u) = _
  rw [tables, List.map_append, others, List.map_id, List.map_singleton, sameName_self]
  rfl

theorem tables_insert_last (tables : db.tables = before ++ [t]) :
    (db.insert t.name rows).tables =
      before ++ [{ t with rows := t.rows ++ rows.map (storedRow t.columns) }] :=
  tables_changeRows_last tables _

theorem tables_replace_last (tables : db.tables = before ++ [t])
    (unlike : ∀ r ∈ t.rows, r.head? ≠ (storedRow t.columns cells).head?) :
    (db.replace t.name cells).tables =
      before ++ [{ t with rows := t.rows ++ [storedRow t.columns cells] }] := by
  have kept : t.rows.filter (fun r => r.head? ≠ (storedRow t.columns cells).head?) = t.rows :=
    List.filter_eq_self.mpr fun r member => decide_eq_true (unlike r member)
  rw [replace, tables_changeRows_last tables]
  simp only [kept]

/-- Rows whose first cells are different are all kept, one after the other. -/
theorem foldl_replace_last (tables : db.tables = before ++ [t])
    (unlike : ((t.rows ++ rows.map (storedRow t.columns)).map (·.head?)).Nodup) :
    (rows.foldl (fun db cells => db.replace t.name cells) db).tables =
      before ++ [{ t with rows := t.rows ++ rows.map (storedRow t.columns) }] := by
  induction rows generalizing db t with
  | nil => rw [List.map_nil, List.append_nil]; exact tables
  | cons cells rest ih =>
      have first : ∀ r ∈ t.rows, r.head? ≠ (storedRow t.columns cells).head? := by
        rw [List.map_append, List.nodup_append] at unlike
        exact fun r member => unlike.2.2 _ (List.mem_map_of_mem member) _ List.mem_cons_self
      rw [List.map_cons, List.append_cons t.rows] at unlike ⊢
      exact ih (tables_replace_last tables first) unlike

end TableMachine.Database
