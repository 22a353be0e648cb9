import Mathlib.Data.List.Nodup
import Mathlib.Data.Set.Function
import Mathlib.Logic.Relation
import TableMachine.Proofs.References
import TableMachine.Proofs.Visiting
import TableMachine.Value.Equality

/-! # Deep copies are copies

A copy of a value is the value with its references renamed, in a heap where the new names lead to copies
of the containers. The renaming is a bijection between the containers that are reached and those that are
new, so sharing and cycles are those of the original. A deep copy is such a copy whatever order the
fields of an object are visited in. Writing to the containers that were there before does not change it,
and where the original has no cycle and no word that is not a number, the two are equal.
-/

namespace TableMachine

open Heap

/-! ## Renaming -/

/-- New names for containers. -/
structure Renaming where
  array : ArrayRef → ArrayRef
  object : ObjectRef → ObjectRef
  table : TableRef → TableRef

namespace Renaming

def ref (names : Renaming) : Ref → Ref
  | .array r => .array (names.array r)
  | .object r => .object (names.object r)
  | .table r => .table (names.table r)

/-- The value under the new names. Scalars and columns stay what they are. -/
def value (names : Renaming) : Value → Value
  | .array r => .array (names.array r)
  | .object r => .object (names.object r)
  | .table r => .table (names.table r)
  | v => v

theorem refOf_value (names : Renaming) (v : Value) : refOf (names.value v) = (refOf v).map names.ref := by
  cases v <;> rfl

end Renaming

/-- What a reference leads to. -/
inductive Container where
  | array (elements : Array Value)
  | object (fields : Object)
  | table (table : Table)

namespace Container

def contents : Container → List Value
  | array elements => elements.toList
  | object fields => fields.values
  | table t => t.rows.flatten

/-- The container with its values under the new names. -/
def renamed (names : Renaming) : Container → Container
  | array elements => .array (elements.map names.value)
  | object fields => .object (fields.mapValues names.value)
  | table t => .table ⟨t.name, t.headers, t.rows.map (·.map names.value), t.headers⟩

theorem contents_renamed (names : Renaming) (c : Container) :
    (c.renamed names).contents = c.contents.map names.value := by
  cases c with
  | array elements => exact Array.toList_map
  | object fields => exact Dictionary.values_mapValues _ _
  | table t => exact List.map_flatten.symm

end Container

namespace Heap

variable {heap heap' later : Heap} {v copy x y : Value} {ref : Ref}

def container (heap : Heap) : Ref → Container
  | .array r => .array (heap.array r)
  | .object r => .object (heap.object r)
  | .table r => .table (heap.table r)

theorem contents_eq (heap : Heap) (ref : Ref) : heap.contents ref = (heap.container ref).contents := by
  cases ref <;> rfl

theorem children_eq (heap : Heap) (ref : Ref) :
    heap.children ref = (heap.container ref).contents.filterMap refOf := by
  rw [children, contents_eq]

theorem children_renamed {names : Renaming} {other : Ref}
    (same : heap'.container other = (heap.container ref).renamed names) :
    heap'.children other = (heap.children ref).map names.ref := by
  rw [children_eq, same, Container.contents_renamed, children_eq, List.filterMap_map, List.map_filterMap]
  congr 1
  funext x
  exact names.refOf_value x

/-- `copy` in `heap'` is a copy of `v` in `heap`: what was there is still there, and the containers that
are new are those reached from `v`, under new names. -/
structure IsCopy (heap : Heap) (v copy : Value) (heap' : Heap) : Prop where
  kept : ∀ ref, heap.Holds ref → heap'.Holds ref ∧ heap'.container ref = heap.container ref
  renamed : ∃ names : Renaming, copy = names.value v ∧
    Set.BijOn names.ref {ref | heap.Reached v ref} {ref | heap'.Holds ref ∧ ¬ heap.Holds ref} ∧
    ∀ ref, heap.Reached v ref → heap'.container (names.ref ref) = (heap.container ref).renamed names

/-! ## Writes to what was there before -/

/-- A change of a container. -/
inductive Write where
  | setArray (ref : ArrayRef) (elements : Array Value)
  | append (ref : ArrayRef) (values : List Value)
  | setObject (ref : ObjectRef) (fields : Object)
  | setField (ref : ObjectRef) (key : Text) (value : Value)
  | setTable (ref : TableRef) (table : Table)
  | nameTable (ref : TableRef) (name : Text)

def Write.target : Write → Ref
  | setArray r _ | append r _ => .array r
  | setObject r _ | setField r _ _ => .object r
  | setTable r _ | nameTable r _ => .table r

def write (heap : Heap) : Write → Heap
  | .setArray r elements => heap.setArray r elements
  | .append r values => heap.append r values
  | .setObject r fields => heap.setObject r fields
  | .setField r key value => heap.setField r key value
  | .setTable r table => heap.setTable r table
  | .nameTable r name => heap.nameTable r name

private theorem getD_setIfInBounds_ne {α : Type} {xs : Array α} {i j : Nat} (apart : j ≠ i)
    (x absent : α) : (xs.setIfInBounds i x).getD j absent = xs.getD j absent := by
  simp [apart.symm]

private theorem getD_modify_ne {α : Type} {xs : Array α} {i j : Nat} (apart : j ≠ i) (f : α → α)
    (absent : α) : (xs.modify i f).getD j absent = xs.getD j absent := by
  simp [Array.getElem?_modify, apart.symm]

theorem container_write {w : Write} (different : ref ≠ w.target) :
    (heap.write w).container ref = heap.container ref := by
  match w, ref with
  | .setArray ⟨i⟩ elements, .array ⟨j⟩ =>
      have apart : j ≠ i := fun same => different (by rw [same]; rfl)
      exact congrArg Container.array (getD_setIfInBounds_ne apart _ _)
  | .append ⟨i⟩ values, .array ⟨j⟩ =>
      have apart : j ≠ i := fun same => different (by rw [same]; rfl)
      exact congrArg Container.array (getD_modify_ne apart _ _)
  | .setObject ⟨i⟩ fields, .object ⟨j⟩ =>
      have apart : j ≠ i := fun same => different (by rw [same]; rfl)
      exact congrArg Container.object (getD_setIfInBounds_ne apart _ _)
  | .setField ⟨i⟩ key value, .object ⟨j⟩ =>
      have apart : j ≠ i := fun same => different (by rw [same]; rfl)
      exact congrArg Container.object (getD_modify_ne apart _ _)
  | .setTable ⟨i⟩ table, .table ⟨j⟩ =>
      have apart : j ≠ i := fun same => different (by rw [same]; rfl)
      exact congrArg Container.table (getD_setIfInBounds_ne apart _ _)
  | .nameTable ⟨i⟩ name, .table ⟨j⟩ =>
      have apart : j ≠ i := fun same => different (by rw [same]; rfl)
      exact congrArg Container.table (getD_modify_ne apart _ _)
  | .setArray _ _, .object _ | .setArray _ _, .table _ | .append _ _, .object _ | .append _ _, .table _
  | .setObject _ _, .array _ | .setObject _ _, .table _ | .setField _ _ _, .array _
  | .setField _ _ _, .table _ | .setTable _ _, .array _ | .setTable _ _, .object _
  | .nameTable _ _, .array _ | .nameTable _ _, .object _ => rfl

theorem container_writes {writes : List Write} (only : ∀ w ∈ writes, heap.Holds w.target)
    (missing : ¬ heap.Holds ref) : (writes.foldl write heap').container ref = heap'.container ref := by
  induction writes generalizing heap' with
  | nil => rfl
  | cons w writes ih =>
      rw [List.forall_mem_cons] at only
      rw [List.foldl_cons, ih only.2]
      exact container_write fun same => missing (by rw [same]; exact only.1)

/-- As long as no new container is written to, what is reached from a copy is new and as it was. -/
theorem IsCopy.isolated (isCopy : heap.IsCopy v copy heap')
    (untouched : ∀ ref, ¬ heap.Holds ref → later.container ref = heap'.container ref)
    (reached : later.Reached copy ref) :
    (heap'.Holds ref ∧ ¬ heap.Holds ref) ∧ later.container ref = heap'.container ref := by
  obtain ⟨names, rfl, bijection, same⟩ := isCopy.renamed
  have origin : ∃ origin, heap.Reached v origin ∧ names.ref origin = ref := by
    induction reached with
    | itself found =>
        rw [names.refOf_value] at found
        obtain ⟨origin, from_, rfl⟩ := Option.map_eq_some_iff.mp found
        exact ⟨origin, .itself from_, rfl⟩
    | inside _ child ih =>
        obtain ⟨outer, reached, rfl⟩ := ih
        have new := bijection.mapsTo reached
        rw [children_renamed ((untouched _ new.2).trans (same outer reached))] at child
        obtain ⟨origin, inside, rfl⟩ := List.mem_map.mp child
        exact ⟨origin, reached.inside inside, rfl⟩
  obtain ⟨origin, from_, rfl⟩ := origin
  have new := bijection.mapsTo from_
  exact ⟨new, untouched _ new.2⟩

/-! ## Equality -/

/-- `x` is the value or stands in a container that is reached from it. -/
def Shows (heap : Heap) (v x : Value) : Prop :=
  x = v ∨ ∃ ref, heap.Reached v ref ∧ x ∈ heap.contents ref

theorem Shows.reached (shows_ : heap.Shows v x) (found : refOf x = some ref) : heap.Reached v ref := by
  rcases shows_ with rfl | ⟨outer, reached, inside⟩
  · exact .itself found
  · exact reached.inside (List.mem_filterMap.mpr ⟨x, inside, found⟩)

theorem Shows.inside (shows_ : heap.Shows v x) (found : refOf x = some ref)
    (inside : y ∈ heap.contents ref) : heap.Shows v y :=
  .inr ⟨ref, shows_.reached found, inside⟩

/-- One container stands in the other. -/
def Directly (heap : Heap) (outer inner : Ref) : Prop := inner ∈ heap.children outer

/-- No container that is reached from the value is inside itself, however deep. -/
def Acyclic (heap : Heap) (v : Value) : Prop :=
  ∀ ref, heap.Reached v ref → ¬ Relation.TransGen heap.Directly ref ref

theorem acyclic_of_rank (rank : Ref → Nat)
    (falls : ∀ outer inner, heap.Reached v outer → heap.Directly outer inner → rank inner < rank outer) :
    heap.Acyclic v := by
  intro ref reached around
  have lower {inner : Ref} (inside : Relation.TransGen heap.Directly ref inner) :
      heap.Reached v inner ∧ rank inner < rank ref := by
    induction inside with
    | single direct => exact ⟨reached.inside direct, falls _ _ reached direct⟩
    | tail _ direct ih => exact ⟨ih.1.inside direct, Nat.lt_trans (falls _ _ ih.1 direct) ih.2⟩
  exact Nat.lt_irrefl _ (lower around).2

/-- All words that the value shows are numbers. -/
def Numeric (heap : Heap) (v : Value) : Prop := ∀ x, heap.Shows v (.number x) → x.isNaN = false

theorem holds_of_has (has : heap.Has x) (found : refOf x = some ref) : heap.Holds ref := by
  cases x <;> cases found <;> exact has

theorem Closed.contents (closed : heap.Closed) (inside : x ∈ heap.contents ref) : heap.Has x := by
  cases ref with
  | array r => exact closed.array r x (Array.mem_toList_iff.mp inside)
  | object r =>
      obtain ⟨field, stored, rfl⟩ := List.mem_map.mp inside
      exact closed.object r field stored
  | table r =>
      obtain ⟨row, stored, cell⟩ := List.mem_flatten.mp inside
      exact closed.table r row stored x cell

theorem Closed.holds_of_reached (closed : heap.Closed) (has : heap.Has v) (reached : heap.Reached v ref) :
    heap.Holds ref := by
  cases reached with
  | itself found => exact holds_of_has has found
  | inside _ child =>
      obtain ⟨x, inside, found⟩ := List.mem_filterMap.mp child
      exact holds_of_has (closed.contents inside) found

end Heap

namespace Value

variable {same : Value → Value → Bool} {f : Value → Value}

theorem pairwise_map_self {xs : List Value} (each : ∀ x ∈ xs, same (f x) x = true) :
    pairwise same (xs.map f) xs = true := by
  induction xs with
  | nil => rfl
  | cons x xs ih =>
      rw [List.forall_mem_cons] at each
      simp only [List.map_cons, pairwise, each.1, ih each.2, Bool.and_self]

theorem rowsPairwise_map_self {rows : List (List Value)}
    (each : ∀ x ∈ rows.flatten, same (f x) x = true) :
    rowsPairwise same (rows.map (·.map f)) rows = true := by
  induction rows with
  | nil => rfl
  | cons row rows ih =>
      rw [List.flatten_cons, List.forall_mem_append] at each
      simp only [List.map_cons, rowsPairwise, pairwise_map_self each.1, ih each.2, Bool.and_self]

theorem fieldsMatch_map_self {o : Object} (each : ∀ x ∈ o.values, same (f x) x = true) :
    fieldsMatch same (o.mapValues f) o = true := by
  simp only [fieldsMatch, Dictionary.entries_mapValues, List.all_map, List.all_eq_true]
  intro field stored
  obtain ⟨key, x⟩ := field
  simp only [Function.comp_apply, Dictionary.get?_of_mem stored]
  exact each x (List.mem_map.mpr ⟨(key, x), stored, rfl⟩)

end Value

namespace Heap

variable {heap heap' : Heap} {v copy x : Value} {ref : Ref}

/-- Containers on one way down are different, so there are at most as many as the heap has, and the
comparison gets to the bottom. -/
private theorem equalWithin_renamed {names : Renaming} {depth : Nat} {above : List Ref}
    (kept : ∀ ref, heap.Reached v ref → heap'.Holds ref ∧ heap'.container ref = heap.container ref)
    (renamed : ∀ ref, heap.Reached v ref →
      heap'.container (names.ref ref) = (heap.container ref).renamed names)
    (acyclic : heap.Acyclic v) (numeric : heap.Numeric v)
    (shows_ : heap.Shows v x) (once : above.Nodup) (reached : ∀ outer ∈ above, heap.Reached v outer)
    (around : ∀ outer ∈ above, ∀ ref, refOf x = some ref → Relation.TransGen heap.Directly outer ref)
    (deep : heap'.size < above.length + depth) :
    Value.equalWithin heap' depth (names.value x) x = true := by
  induction depth generalizing above x with
  | zero =>
      have few : above.length ≤ heap'.refs.length :=
        (List.subperm_of_subset once fun outer member =>
          mem_refs.mpr (kept outer (reached outer member)).1).length_le
      rw [length_refs] at few
      omega
  | succ depth ih =>
      have below {ref : Ref} (found : refOf x = some ref) {y : Value} (inside : y ∈ heap.contents ref) :
          Value.equalWithin heap' depth (names.value y) y = true := by
        have reached' := shows_.reached found
        have new : ref ∉ above := fun member => acyclic ref reached' (around ref member ref found)
        have once' : (ref :: above).Nodup := List.nodup_cons.mpr ⟨new, once⟩
        refine ih (shows_.inside found inside) once' (List.forall_mem_cons.mpr ⟨reached', reached⟩) ?_ ?_
        rotate_left
        · rw [List.length_cons]
          omega
        intro outer member inner found'
        have direct : heap.Directly ref inner := List.mem_filterMap.mpr ⟨y, inside, found'⟩
        rcases List.mem_cons.mp member with rfl | earlier
        · exact .single direct
        · exact (around outer earlier ref found).tail direct
      cases x with
      | array r =>
          have old := Container.array.inj (kept _ (shows_.reached rfl)).2
          have new := Container.array.inj (renamed _ (shows_.reached rfl))
          simp only [Renaming.value, Value.equalWithin, old, new, Array.toList_map]
          exact Value.pairwise_map_self fun y inside => below rfl inside
      | object r =>
          have old := Container.object.inj (kept _ (shows_.reached rfl)).2
          have new := Container.object.inj (renamed _ (shows_.reached rfl))
          simp only [Renaming.value, Value.equalWithin, old, new, Dictionary.size_mapValues, beq_self_eq_true,
            Bool.true_and, Bool.or_eq_true]
          exact .inr (Value.fieldsMatch_map_self fun y inside => below rfl inside)
      | table r =>
          have old := Container.table.inj (kept _ (shows_.reached rfl)).2
          have new := Container.table.inj (renamed _ (shows_.reached rfl))
          simp only [Renaming.value, Value.equalWithin, old, new, beq_self_eq_true, Bool.true_and,
            Bool.or_eq_true]
          exact .inr (Value.rowsPairwise_map_self fun y inside => below rfl inside)
      | number n => simp [Renaming.value, Value.equalWithin, Number.equals, numeric n shows_]
      | _ => simp [Renaming.value, Value.equalWithin]

theorem IsCopy.equal (isCopy : heap.IsCopy v copy heap') (closed : heap.Closed) (has : heap.Has v)
    (acyclic : heap.Acyclic v) (numeric : heap.Numeric v) :
    Value.equal heap' copy v = true := by
  obtain ⟨names, rfl, _, renamed⟩ := isCopy.renamed
  apply equalWithin_renamed (fun ref reached => isCopy.kept ref (closed.holds_of_reached has reached))
    renamed acyclic numeric (.inl rfl) List.nodup_nil
  · simp
  · simp
  · have square := Nat.le_mul_self heap'.size
    simp only [Value.comparisonDepth, List.length_nil]
    omega

/-! ## Places

The members of a list get numbers from `base` on, in their order. -/

section

variable {α β : Type} [DecidableEq α] {make : Nat → α} {number : α → Nat} {base : Nat} {xs : List α}

def placed (make : Nat → α) (base : Nat) (xs : List α) (x : α) : α :=
  match xs.idxOf? x with
  | some i => make (base + i)
  | none => x

theorem placed_getElem (once : xs.Nodup) {i : Nat} (inside : i < xs.length) :
    placed make base xs xs[i] = make (base + i) := by
  have found : xs.idxOf? xs[i] = some i := by
    rw [List.idxOf?_eq_some_iff]
    refine ⟨inside, rfl, fun j earlier same => ?_⟩
    have equal : j = i := once.getElem_inj_iff.mp same
    omega
  rw [placed, found]

theorem placed_bijOn {listed : α → Prop} (inverse : Function.LeftInverse number make)
    (inverse' : Function.RightInverse number make) (once : xs.Nodup) (all : ∀ {x}, x ∈ xs ↔ listed x) :
    Set.BijOn (placed make base xs) {x | listed x}
      {y | number y < base + xs.length ∧ ¬ number y < base} := by
  refine ⟨fun x member => ?_, fun x member y member' same => ?_, fun y inside => ?_⟩
  · obtain ⟨i, inside, rfl⟩ := List.mem_iff_getElem.mp (all.mpr member)
    rw [placed_getElem once inside, Set.mem_ofPred_eq, inverse]
    omega
  · obtain ⟨i, inside, rfl⟩ := List.mem_iff_getElem.mp (all.mpr member)
    obtain ⟨j, inside', rfl⟩ := List.mem_iff_getElem.mp (all.mpr member')
    rw [placed_getElem once inside, placed_getElem once inside'] at same
    have equal := inverse.injective same
    congr 1
    omega
  · obtain ⟨most, least⟩ := inside
    refine ⟨xs.get ⟨number y - base, by omega⟩, all.mp (List.get_mem _ _), ?_⟩
    rw [List.get_eq_getElem, placed_getElem once, Nat.add_sub_cancel' (Nat.not_lt.mp least), inverse']

theorem getD_placed {old : Array β} {x : α} (inverse : Function.LeftInverse number make) (once : xs.Nodup)
    (member : x ∈ xs) (f : α → β) (absent : β) :
    (old ++ (xs.map f).toArray).getD (number (placed make old.size xs x)) absent = f x := by
  obtain ⟨i, inside, rfl⟩ := List.mem_iff_getElem.mp member
  rw [placed_getElem once inside, inverse]
  simp [inside]

theorem getD_append_of_lt {old new : Array β} {i : Nat} (inside : i < old.size) (absent : β) :
    (old ++ new).getD i absent = old.getD i absent := by
  simp [Array.getElem?_append_left inside]

end

/-! ## Deep copies -/

section

variable {refs : List Ref}

/-- The names that the copies get. -/
def placement (heap : Heap) (refs : List Ref) : Renaming where
  array := placed ArrayRef.mk heap.arrays.size (arraysOf refs)
  object := placed ObjectRef.mk heap.objects.size (objectsOf refs)
  table := placed TableRef.mk heap.tables.size (tablesOf refs)

theorem relocate_eq (heap : Heap) (refs : List Ref) :
    heap.relocate refs = (heap.placement refs).value := by
  funext v
  cases v with
  | array r =>
      simp only [relocate, Renaming.value, placement, placed]
      cases (arraysOf refs).idxOf? r <;> rfl
  | object r =>
      simp only [relocate, Renaming.value, placement, placed]
      cases (objectsOf refs).idxOf? r <;> rfl
  | table r =>
      simp only [relocate, Renaming.value, placement, placed]
      cases (tablesOf refs).idxOf? r <;> rfl
  | _ => rfl

theorem mem_arraysOf {r : ArrayRef} : r ∈ arraysOf refs ↔ .array r ∈ refs := by
  rw [arraysOf, List.mem_filterMap]
  constructor
  · rintro ⟨ref, member, same⟩
    cases ref <;> cases same
    exact member
  · exact fun member => ⟨_, member, rfl⟩

theorem mem_objectsOf {r : ObjectRef} : r ∈ objectsOf refs ↔ .object r ∈ refs := by
  rw [objectsOf, List.mem_filterMap]
  constructor
  · rintro ⟨ref, member, same⟩
    cases ref <;> cases same
    exact member
  · exact fun member => ⟨_, member, rfl⟩

theorem mem_tablesOf {r : TableRef} : r ∈ tablesOf refs ↔ .table r ∈ refs := by
  rw [tablesOf, List.mem_filterMap]
  constructor
  · rintro ⟨ref, member, same⟩
    cases ref <;> cases same
    exact member
  · exact fun member => ⟨_, member, rfl⟩

theorem ofKind_nodup (once : refs.Nodup) :
    (arraysOf refs).Nodup ∧ (objectsOf refs).Nodup ∧ (tablesOf refs).Nodup := by
  refine ⟨?_, ?_, ?_⟩ <;>
  · apply List.Nodup.filterMap _ once
    intro a b r first second
    cases a <;> cases first
    cases b <;> cases second
    rfl

/-- Containers of different kinds stay apart. -/
theorem bijOn_ref {names : Renaming} {old new : Ref → Prop}
    (arrays : Set.BijOn names.array {r | old (.array r)} {r | new (.array r)})
    (objects : Set.BijOn names.object {r | old (.object r)} {r | new (.object r)})
    (tables : Set.BijOn names.table {r | old (.table r)} {r | new (.table r)}) :
    Set.BijOn names.ref {ref | old ref} {ref | new ref} := by
  refine ⟨?_, ?_, ?_⟩
  · rintro (r | r | r) member
    · exact arrays.mapsTo member
    · exact objects.mapsTo member
    · exact tables.mapsTo member
  · rintro (r | r | r) member (q | q | q) member' same <;> try cases same
    · exact congrArg Ref.array (arrays.injOn member member' (Ref.array.inj same))
    · exact congrArg Ref.object (objects.injOn member member' (Ref.object.inj same))
    · exact congrArg Ref.table (tables.injOn member member' (Ref.table.inj same))
  · rintro (r | r | r) member
    · obtain ⟨q, member', rfl⟩ := arrays.surjOn member
      exact ⟨.array q, member', rfl⟩
    · obtain ⟨q, member', rfl⟩ := objects.surjOn member
      exact ⟨.object q, member', rfl⟩
    · obtain ⟨q, member', rfl⟩ := tables.surjOn member
      exact ⟨.table q, member', rfl⟩

theorem holds_copyAlong (heap : Heap) (refs : List Ref) (v : Value) (ref : Ref) :
    (heap.copyAlong refs v).2.Holds ref ↔ match ref with
      | .array r => r.id < heap.arrays.size + (arraysOf refs).length
      | .object r => r.id < heap.objects.size + (objectsOf refs).length
      | .table r => r.id < heap.tables.size + (tablesOf refs).length := by
  cases ref <;> simp [Holds, copyAlong]

theorem placement_bijOn (heap : Heap) (v : Value) (once : refs.Nodup) :
    Set.BijOn (heap.placement refs).ref {ref | ref ∈ refs}
      {ref | (heap.copyAlong refs v).2.Holds ref ∧ ¬ heap.Holds ref} := by
  obtain ⟨arrays, objects, tables⟩ := ofKind_nodup once
  simp only [holds_copyAlong]
  apply bijOn_ref
  · exact placed_bijOn (fun _ => rfl : Function.LeftInverse ArrayRef.id .mk) (fun _ => rfl) arrays
      mem_arraysOf
  · exact placed_bijOn (fun _ => rfl : Function.LeftInverse ObjectRef.id .mk) (fun _ => rfl) objects
      mem_objectsOf
  · exact placed_bijOn (fun _ => rfl : Function.LeftInverse TableRef.id .mk) (fun _ => rfl) tables
      mem_tablesOf

theorem container_copyAlong (v : Value) (holds : heap.Holds ref) :
    (heap.copyAlong refs v).2.container ref = heap.container ref := by
  cases ref with
  | array r => exact congrArg Container.array (getD_append_of_lt holds _)
  | object r => exact congrArg Container.object (getD_append_of_lt holds _)
  | table r => exact congrArg Container.table (getD_append_of_lt holds _)

theorem container_placement (v : Value) (once : refs.Nodup) (member : ref ∈ refs) :
    (heap.copyAlong refs v).2.container ((heap.placement refs).ref ref) =
      (heap.container ref).renamed (heap.placement refs) := by
  obtain ⟨arrays, objects, tables⟩ := ofKind_nodup once
  rw [copyAlong, relocate_eq]
  cases ref with
  | array r =>
      exact congrArg Container.array (getD_placed (fun _ => rfl : Function.LeftInverse ArrayRef.id .mk)
        arrays (mem_arraysOf.mpr member) _ _)
  | object r =>
      exact congrArg Container.object (getD_placed (fun _ => rfl : Function.LeftInverse ObjectRef.id .mk)
        objects (mem_objectsOf.mpr member) _ _)
  | table r =>
      exact congrArg Container.table (getD_placed (fun _ => rfl : Function.LeftInverse TableRef.id .mk)
        tables (mem_tablesOf.mpr member) _ _)

/-- The containers that are reached, each once and in any order, make a copy. -/
theorem copyAlong_isCopy (once : refs.Nodup) (all : ∀ ref, ref ∈ refs ↔ heap.Reached v ref) :
    heap.IsCopy v (heap.copyAlong refs v).1 (heap.copyAlong refs v).2 where
  kept ref holds := by
    refine ⟨(holds_copyAlong heap refs v ref).mpr ?_, container_copyAlong v holds⟩
    cases ref <;> exact Nat.lt_add_right _ holds
  renamed := by
    refine ⟨heap.placement refs, by rw [copyAlong, relocate_eq], ?_, fun ref reached => ?_⟩
    · simp only [← all]
      exact placement_bijOn heap v once
    · exact container_placement v once ((all ref).mpr reached)

end

/-- A copy that writing to what was there before does not change, and that equals the value where no
container is inside itself and all words are numbers. -/
structure IsDeepCopy (heap : Heap) (v copy : Value) (heap' : Heap) : Prop extends
    heap.IsCopy v copy heap' where
  isolated : ∀ writes : List Write, (∀ w ∈ writes, heap.Holds w.target) →
    ∀ ref, (writes.foldl write heap').Reached copy ref → (heap'.Holds ref ∧ ¬ heap.Holds ref) ∧
      (writes.foldl write heap').container ref = heap'.container ref
  equal : heap.Closed → heap.Has v → heap.Acyclic v → heap.Numeric v →
    Value.equal heap' copy v = true

theorem IsCopy.isDeepCopy (isCopy : heap.IsCopy v copy heap') : heap.IsDeepCopy v copy heap' where
  toIsCopy := isCopy
  isolated _ only _ reached := isCopy.isolated (fun _ missing => container_writes only missing) reached
  equal := isCopy.equal

/-- However the fields of objects are ordered, the visit from a value ends, with one result, and what is
copied along it is a deep copy of the value. `deepClone` is the copy made in the order of the keys. -/
theorem deepClone_isCopy (heap : Heap) (v : Value) :
    heap.IsDeepCopy v (heap.deepClone v).1 (heap.deepClone v).2 ∧
    (∃ seen, Visits heap.children (refOf v).toList [] seen ∧
      heap.deepClone v = heap.copyAlong seen.reverse v) ∧
    ∀ next : Ref → List Ref, (∀ ref, (next ref).Perm (heap.children ref)) →
      ∃ seen, (∀ after, Visits next (refOf v).toList [] after ↔ after = seen) ∧
        heap.IsDeepCopy v (heap.copyAlong seen.reverse v).1 (heap.copyAlong seen.reverse v).2 := by
  have copies {next : Ref → List Ref} {seen : List Ref} (order : ∀ ref, (next ref).Perm (heap.children ref))
      (visits : Visits next (refOf v).toList [] seen) :
      heap.IsDeepCopy v (heap.copyAlong seen.reverse v).1 (heap.copyAlong seen.reverse v).2 := by
    have once := List.nodup_reverse.mpr (visits.nodup List.nodup_nil)
    exact (copyAlong_isCopy once fun ref => List.mem_reverse.trans (visits.mem_iff order)).isDeepCopy
  have inOrder : ∀ ref, (heap.children ref).Perm (heap.children ref) := fun ref => .refl _
  refine ⟨copies inOrder (visits_reachable inOrder v), ⟨_, visits_reachable inOrder v, rfl⟩, ?_⟩
  intro next order
  have visits := visits_reachable order v
  refine ⟨_, fun after => ⟨fun again => again.unique visits, ?_⟩, copies order visits⟩
  rintro rfl
  exact visits

end Heap

/-! The first array contains itself and an object twice, and the object contains the array. The second
array has no cycle; it contains a table twice, and the table a column of itself. -/

namespace Knot

def cyclic : Value := .array ⟨0⟩

def shared : Value := .array ⟨1⟩

def heap : Heap where
  arrays := #[#[cyclic, .object ⟨0⟩, .object ⟨0⟩], #[.table ⟨0⟩, .table ⟨0⟩, .number .zero]]
  objects := #[⟨[([0x61], cyclic), ([0x62], .table ⟨0⟩)], by decide⟩]
  tables := #[⟨[0x74], [[0x63]], [[.column ⟨0⟩ [0x63]]], [[0x63]]⟩]

theorem closed : heap.Closed where
  array := by
    rintro ⟨_ | _ | n⟩ x member
    · simp [Heap.array, heap] at member
      rcases member with rfl | rfl <;> simp [Heap.Has, heap, cyclic]
    · simp [Heap.array, heap] at member
      rcases member with rfl | rfl <;> simp [Heap.Has, heap]
    · simp [Heap.array, heap] at member
  object := by
    rintro ⟨_ | n⟩ field member
    · simp [Heap.object, heap] at member
      rcases member with rfl | rfl <;> simp [Heap.Has, heap, cyclic]
    · simp [Heap.object, heap] at member
  table := by
    rintro ⟨_ | n⟩ row member
    · simp [Heap.table, heap] at member
      subst member
      simp [Heap.Has, heap]
    · simp [Heap.table, heap, Table.ofHeaders] at member

theorem children_shared : heap.children (.array ⟨1⟩) = [.table ⟨0⟩, .table ⟨0⟩] := by decide

theorem children_table : heap.children (.table ⟨0⟩) = [] := by decide

theorem reached_shared {ref : Ref} (reached : heap.Reached shared ref) :
    ref = .array ⟨1⟩ ∨ ref = .table ⟨0⟩ := by
  induction reached with
  | itself found =>
      cases found
      exact .inl rfl
  | inside _ child ih =>
      rcases ih with rfl | rfl
      · rw [children_shared] at child
        simp at child
        exact .inr child
      · rw [children_table] at child
        cases child

theorem acyclic : heap.Acyclic shared := by
  apply Heap.acyclic_of_rank fun ref => if ref = .array ⟨1⟩ then 1 else 0
  intro outer inner reached direct
  rw [Heap.Directly] at direct
  rcases reached_shared reached with rfl | rfl
  · rw [children_shared] at direct
    simp at direct
    subst direct
    decide
  · rw [children_table] at direct
    cases direct

theorem numeric : heap.Numeric shared := by
  rintro x (same | ⟨ref, reached, inside⟩)
  · cases same
  · rcases reached_shared reached with rfl | rfl
    · simp [Heap.contents, Heap.array, heap] at inside
      subst inside
      decide
    · simp [Heap.contents, Heap.table, heap] at inside

end Knot

namespace Heap

theorem deepClone_isCopy_of_knot :
    (∃ seen copy heap', Visits (fun ref => (Knot.heap.children ref).reverse) [.array ⟨0⟩] [] seen ∧
      Knot.heap.copyAlong seen.reverse Knot.cyclic = (copy, heap') ∧
      Knot.heap.IsCopy Knot.cyclic copy heap' ∧
      ∀ ref, ((heap'.setArray ⟨0⟩ #[]).setField ⟨0⟩ [0x61] .null).Reached copy ref →
        ((heap'.setArray ⟨0⟩ #[]).setField ⟨0⟩ [0x61] .null).container ref = heap'.container ref) ∧
    Value.equal (Knot.heap.deepClone Knot.shared).2 (Knot.heap.deepClone Knot.shared).1 Knot.shared := by
  constructor
  · obtain ⟨seen, visits, copied⟩ :=
      (deepClone_isCopy Knot.heap Knot.cyclic).2.2 _ fun ref => List.reverse_perm _
    refine ⟨seen, _, _, (visits seen).mpr rfl, rfl, copied.toIsCopy, fun ref reached => ?_⟩
    have old : ∀ w ∈ [Write.setArray ⟨0⟩ #[], .setField ⟨0⟩ [0x61] .null],
        Knot.heap.Holds w.target := by
      simp [Write.target, Holds, Knot.heap]
    exact (copied.isolated _ old ref reached).2
  · exact (deepClone_isCopy Knot.heap Knot.shared).1.equal Knot.closed (show 1 < 2 by decide)
      Knot.acyclic Knot.numeric

end Heap

end TableMachine
