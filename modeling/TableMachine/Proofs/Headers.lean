import Mathlib.Data.List.Induction
import Mathlib.Data.List.Nodup
import TableMachine.Proofs.Tables

/-! # The column index and the headers

A table looks its columns up in an index made from its headers at some earlier time, and makes it anew when the
number of names in it is not the number of headers. Programs never change headers, but the host can append one or
replace one in place. Which of these the test of sizes notices is shown here for any history of tables that are
made, filled, looked up, copied and edited: it misses a header replaced among headers that were all different, as
long as none is appended. Then the `Overtaken` index goes on to answer for the old headers.
-/

namespace TableMachine

namespace Table

variable {t : Table} {names : List Text}

/-! ## Different names -/

theorem distinctCount_le_length (names : List Text) : distinctCount names ≤ names.length := by
  induction names with
  | nil => exact Nat.le_refl _
  | cons name rest ih =>
      rw [distinctCount, List.length_cons]
      split <;> omega

theorem nodup_iff_distinctCount (names : List Text) : names.Nodup ↔ distinctCount names = names.length := by
  induction names with
  | nil => exact iff_of_true List.nodup_nil rfl
  | cons name rest ih =>
      have bound := distinctCount_le_length rest
      rw [List.nodup_cons, ih, distinctCount, List.length_cons]
      split
      · rename_i repeated
        exact ⟨fun fresh => absurd (List.contains_iff_mem.mp repeated) fresh.1, fun equal => by omega⟩
      · rename_i fresh
        exact ⟨fun _ => by omega, fun equal => ⟨fun again => fresh (List.contains_iff_mem.mpr again), by omega⟩⟩

/-! ## Indexes that are out of date -/

/-- The index is of other headers than the table has, as many and all different. -/
structure Overtaken (t : Table) : Prop where
  different : t.indexed.Nodup
  length : t.indexed.length = t.headers.length
  apart : t.indexed ≠ t.headers

theorem isStale_eq_false_iff : t.isStale = false ↔ distinctCount t.indexed = t.headers.length := by
  simp [isStale]

theorem columnIndex?_of_stale (stale : t.isStale = true) (name : Text) :
    t.columnIndex? name = t.headers.idxOf? name := by
  rw [columnIndex?, refreshed, if_pos stale]

theorem columnIndex?_of_not_stale (fresh : t.isStale = false) (name : Text) :
    t.columnIndex? name = t.indexed.idxOf? name := by
  rw [columnIndex?, refreshed, if_neg (by rw [fresh]; exact Bool.false_ne_true)]

theorem Overtaken.columnIndex?_eq (overtaken : t.Overtaken) (name : Text) :
    t.columnIndex? name = t.indexed.idxOf? name := by
  apply columnIndex?_of_not_stale
  rw [isStale_eq_false_iff, (nodup_iff_distinctCount _).mp overtaken.different, overtaken.length]

/-- The names of a list without repetitions, each with its position, are the list. -/
theorem eq_of_idxOf?_eq {old new : List Text} (different : old.Nodup) (length : old.length = new.length)
    (same : ∀ name, old.idxOf? name = new.idxOf? name) : old = new := by
  apply List.ext_getElem length
  intro i inside inside'
  have here : old.idxOf? old[i] = some i := by
    apply List.idxOf?_eq_some_iff.mpr
    refine ⟨inside, rfl, fun j below equal => ?_⟩
    exact Nat.ne_of_lt below ((different.getElem_inj_iff).mp equal)
  rw [same] at here
  obtain ⟨_, there, _⟩ := List.idxOf?_eq_some_iff.mp here
  exact there.symm

/-- An index that is no longer than the headers is right unless it is overtaken. -/
theorem columnIndex?_eq_iff (short : t.indexed.length ≤ t.headers.length) :
    (∀ name, t.columnIndex? name = t.headers.idxOf? name) ↔ ¬ t.Overtaken := by
  constructor
  · intro right overtaken
    apply overtaken.apart
    apply eq_of_idxOf?_eq overtaken.different overtaken.length
    intro name
    rw [← overtaken.columnIndex?_eq, right]
  · intro right name
    by_cases stale : t.isStale = true
    · exact columnIndex?_of_stale stale name
    · have fresh := Bool.not_eq_true _ ▸ stale
      have count := isStale_eq_false_iff.mp fresh
      have bound := distinctCount_le_length t.indexed
      have different : t.indexed.Nodup := (nodup_iff_distinctCount _).mpr (by omega)
      have same : t.indexed = t.headers := Classical.byContradiction fun apart =>
        right ⟨different, by omega, apart⟩
      rw [columnIndex?_of_not_stale fresh, same]

end Table

/-! ## Histories of tables -/

/-- What a program or its host does with containers, as far as tables are concerned. -/
inductive Use where
  | make (headers : List Text)
  /-- A table written down by the host, without an index. -/
  | adopt (name : Text) (headers : List Text) (rows : List (List Value))
  | array (elements : Array Value)
  | object (fields : Object)
  | addRow (r : TableRef) (row : List Value)
  | lookup (r : TableRef) (name : Text)
  | clone (v : Value)
  | addHeader (r : TableRef) (header : Text)
  | setHeader (r : TableRef) (position : Nat) (header : Text)

/-- A header of the table is replaced. -/
def Use.Renames (r : TableRef) : Use → Prop
  | .setHeader q _ _ => q = r
  | _ => False

namespace Heap

/-- The heap after a use. A row that is refused leaves the table as it is. -/
def use (heap : Heap) : Use → Heap
  | .make headers => (heap.newTable (.ofHeaders headers)).2
  | .adopt name headers rows => (heap.newTable ⟨name, headers, rows, []⟩).2
  | .array elements => (heap.newArray elements).2
  | .object fields => (heap.newObject fields).2
  | .addRow r row => (((heap.table r).addRow? row).map (heap.setTable r)).getD heap
  | .lookup r name => heap.setTable r ((heap.table r).lookup name).2
  | .clone v => (heap.deepClone v).2
  | .addHeader r header => heap.setTable r ((heap.table r).addHeader header)
  | .setHeader r position header => heap.setTable r ((heap.table r).setHeader position header)

/-- The heap after a history of uses, the oldest first. -/
def after (uses : List Use) : Heap := uses.foldl use {}

theorem after_snoc (uses : List Use) (u : Use) : after (uses ++ [u]) = (after uses).use u := by
  rw [after, List.foldl_append]
  rfl

end Heap

/-- What one use can do to the headers of a table and to its index. -/
inductive Table.Drifts (renamed : Prop) (t t' : Table) : Prop where
  | indexed (same : t'.indexed = t'.headers)
  | unindexed (none : t'.indexed = [])
  | grown (same : t'.indexed = t.indexed) (headers : t.headers <+: t'.headers)
  | renamed (cause : renamed) (same : t'.indexed = t.indexed) (length : t'.headers.length = t.headers.length)

namespace Table.Drifts

variable {renamed : Prop} {t t' : Table}

theorem of_eq (same : t' = t) : Drifts renamed t t' :=
  .grown (by rw [same]) (same ▸ List.prefix_rfl)

theorem refreshed (t : Table) : Drifts renamed t t.refreshed := by
  unfold Table.refreshed
  split
  · exact .indexed rfl
  · exact of_eq rfl

theorem addRow? {row : List Value} (added : t.addRow? row = some t') : Drifts renamed t t' := by
  unfold Table.addRow? at added
  split at added
  · cases added
    exact .grown rfl List.prefix_rfl
  · cases added

end Table.Drifts

namespace Heap

variable {heap : Heap} {u : Use} {uses : List Use} {r : TableRef}

theorem drifts_setTable {renamed : Prop} {q : TableRef} {t : Table}
    (drifts : q = r → (heap.table r).Drifts renamed t) :
    (heap.table r).Drifts renamed ((heap.setTable q t).table r) := by
  rcases heap.setTable_table_cases q t r with old | ⟨rfl, new⟩
  · exact .of_eq old
  · rw [new]
    exact drifts rfl

theorem drifts_newTable {renamed : Prop} {t : Table} (drifts : (heap.table r).Drifts renamed t) :
    (heap.table r).Drifts renamed ((heap.newTable t).2.table r) := by
  have cases_ : (heap.newTable t).2.table r = heap.table r ∨ (heap.newTable t).2.table r = t :=
    getD_push heap.tables t (.ofHeaders []) r.id
  rcases cases_ with old | new
  · exact .of_eq old
  · rw [new]
    exact drifts

/-- The step: an index is made anew, or kept while the headers grow or one of them is replaced. -/
theorem drifts_use (heap : Heap) (u : Use) (r : TableRef) :
    (heap.table r).Drifts (u.Renames r) ((heap.use u).table r) := by
  cases u with
  | make headers => exact drifts_newTable (.indexed rfl)
  | adopt name headers rows => exact drifts_newTable (.unindexed rfl)
  | array elements => exact .of_eq rfl
  | object fields => exact .of_eq rfl
  | addRow q row =>
      unfold use
      cases added : (heap.table q).addRow? row with
      | none =>
          simp only [added, Option.map_none, Option.getD_none]
          exact .of_eq rfl
      | some t =>
          simp only [added, Option.map_some, Option.getD_some]
          apply drifts_setTable
          rintro rfl
          exact .addRow? added
  | lookup q name =>
      apply drifts_setTable
      rintro rfl
      exact .refreshed _
  | clone v =>
      rcases deepClone_table_cases heap v r with old | ⟨q, copy⟩
      · exact .of_eq old
      · exact .indexed (by rw [use, copy]; rfl)
  | addHeader q header =>
      apply drifts_setTable
      rintro rfl
      exact .grown rfl (List.prefix_append _ _)
  | setHeader q position header =>
      apply drifts_setTable
      intro same
      subst same
      exact .renamed rfl rfl (List.length_set)

/-- What a history tells about the index of a table: it is no longer than the headers, it was made from the headers
of some time, and it is the start of them as long as none was replaced since. -/
structure IndexPast (uses : List Use) (r : TableRef) : Prop where
  short : ((after uses).table r).indexed.length ≤ ((after uses).table r).headers.length
  made : ∃ earlier later, uses = earlier ++ later ∧
    ((after uses).table r).indexed = ((after earlier).table r).headers ∧
    ((∀ u ∈ later, ¬ u.Renames r) → ((after uses).table r).indexed <+: ((after uses).table r).headers)

theorem indexPast (uses : List Use) (r : TableRef) : IndexPast uses r := by
  -- One use more at the end: the index is new, or the one there was, and then the headers have not become fewer.
  induction uses using List.reverseRecOn with
  | nil => exact ⟨Nat.le_refl _, [], [], rfl, rfl, fun _ => List.prefix_rfl⟩
  | append_singleton uses u ih =>
      have drifts := drifts_use (after uses) u r
      rw [← after_snoc] at drifts
      obtain ⟨earlier, later, split_, made, start⟩ := ih.made
      have split_ : uses ++ [u] = earlier ++ (later ++ [u]) := by rw [split_, List.append_assoc]
      cases drifts with
      | indexed same =>
          have start : ((after (uses ++ [u])).table r).indexed <+: ((after (uses ++ [u])).table r).headers :=
            ⟨[], by rw [List.append_nil, same]⟩
          exact ⟨start.length_le, uses ++ [u], [], by simp, same, fun _ => start⟩
      | unindexed none =>
          exact ⟨by simp [none], [], uses ++ [u], rfl, none, fun _ => by simp [none]⟩
      | grown same headers =>
          refine ⟨?_, earlier, later ++ [u], split_, same.trans made, fun never => ?_⟩
          · rw [same]
            exact Nat.le_trans ih.short headers.length_le
          · rw [same]
            exact (start fun u member => never u (List.mem_append_left _ member)).trans headers
      | renamed cause same length =>
          refine ⟨?_, earlier, later ++ [u], split_, same.trans made, fun never => ?_⟩
          · rw [same, length]
            exact ih.short
          · exact absurd cause (never u (by simp))

end Heap

namespace Table

open Heap

/-- The index follows the headers exactly while it is not overtaken. An overtaken one answers for headers of an
earlier time, as many as now and all different, of which one was replaced since. -/
theorem index_follows_headers (uses : List Use) (r : TableRef) :
    ((∀ name, ((after uses).table r).columnIndex? name = ((after uses).table r).headers.idxOf? name) ↔
      ¬ ((after uses).table r).Overtaken) ∧
    (((after uses).table r).Overtaken → ∃ earlier later, uses = earlier ++ later ∧
      (∀ name, ((after uses).table r).columnIndex? name = ((after earlier).table r).headers.idxOf? name) ∧
      ((after earlier).table r).headers.Nodup ∧
      ((after earlier).table r).headers.length = ((after uses).table r).headers.length ∧
      ∃ u ∈ later, u.Renames r) := by
  have past := indexPast uses r
  refine ⟨columnIndex?_eq_iff past.short, fun overtaken => ?_⟩
  obtain ⟨earlier, later, split_, made, start⟩ := past.made
  refine ⟨earlier, later, split_, fun name => ?_, ?_, ?_, ?_⟩
  · rw [overtaken.columnIndex?_eq, made]
  · rw [← made]
    exact overtaken.different
  · rw [← made]
    exact overtaken.length
  · apply Classical.byContradiction
    intro never
    have kept := start fun u member renames => never ⟨u, member, renames⟩
    exact overtaken.apart (kept.eq_of_length overtaken.length)

end Table

/-! ## A renamed column -/

namespace Relabelled

/-- A table with columns `a` and `b`, of which the host renames the first to `c`. -/
def uses : List Use := [.make [[0x61], [0x62]], .lookup ⟨0⟩ [0x61], .setHeader ⟨0⟩ 0 [0x63]]

def table : Table := (Heap.after uses).table ⟨0⟩

theorem overtaken : table.Overtaken := ⟨by decide, rfl, by decide⟩

end Relabelled

namespace Table

/-- The new header is not found, although it is the first one. -/
theorem index_follows_headers_of_relabelled :
    Relabelled.table.columnIndex? [0x63] = none ∧ Relabelled.table.headers.idxOf? [0x63] = some 0 ∧
    (¬ ∀ name, Relabelled.table.columnIndex? name = Relabelled.table.headers.idxOf? name) ∧
    ∃ u ∈ Relabelled.uses, u.Renames ⟨0⟩ := by
  obtain ⟨exact_, past⟩ := index_follows_headers Relabelled.uses ⟨0⟩
  obtain ⟨earlier, later, split_, -, -, -, u, member, renames⟩ := past Relabelled.overtaken
  have cause : u ∈ Relabelled.uses := split_ ▸ List.mem_append_right earlier member
  exact ⟨by decide, by decide, fun right => exact_.mp right Relabelled.overtaken, u, cause, renames⟩

end Table

end TableMachine
