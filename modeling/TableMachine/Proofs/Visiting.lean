import Mathlib.Algebra.Order.BigOperators.Group.List
import Mathlib.Algebra.Order.Group.Nat
import Mathlib.Algebra.Ring.Nat
import TableMachine.Value.Clone

/-! # The containers that are reached from a value

The containers that can be reached from a value are found by visiting each with all that is inside it,
and leaving out those that were met before. Every container is opened at most once, so the visit ends,
cycles or not, and in whatever order the containers inside one are taken it meets the same containers,
each once.
-/

namespace TableMachine.Heap

variable {heap : Heap} {v : Value} {next : Ref → List Ref} {ref : Ref}
variable {pending seen between after : List Ref}

/-- The containers that can be reached from a value, not counting ways through column references. -/
inductive Reached (heap : Heap) (v : Value) : Ref → Prop where
  | itself {ref : Ref} : refOf v = some ref → Reached heap v ref
  | inside {ref child : Ref} : Reached heap v ref → child ∈ heap.children ref → Reached heap v child

/-- The containers met after those in `pending` were visited one after the other. What is inside a new
one is visited before the next, and it is noted before that. -/
inductive Visits (next : Ref → List Ref) : (pending seen after : List Ref) → Prop where
  | done {seen : List Ref} : Visits next [] seen seen
  | known {ref : Ref} {pending seen after : List Ref} :
      ref ∈ seen → Visits next pending seen after → Visits next (ref :: pending) seen after
  | new {ref : Ref} {pending seen between after : List Ref} :
      ref ∉ seen → Visits next (next ref) (ref :: seen) between → Visits next pending between after →
      Visits next (ref :: pending) seen after

namespace Visits

theorem unique {other : List Ref} (visits : Visits next pending seen after)
    (again : Visits next pending seen other) : after = other := by
  induction visits generalizing other with
  | done =>
      cases again
      rfl
  | known old _ ih =>
      cases again with
      | known _ rest => exact ih rest
      | new absent _ _ => exact absurd old absent
  | new absent _ _ ihInside ihRest =>
      cases again with
      | known old _ => exact absurd old absent
      | new _ inside rest =>
          obtain rfl := ihInside inside
          exact ihRest rest

theorem of_append {first second : List Ref} (visits : Visits next (first ++ second) seen after) :
    ∃ between, Visits next first seen between ∧ Visits next second between after := by
  induction first generalizing seen with
  | nil => exact ⟨seen, .done, visits⟩
  | cons ref first ih =>
      cases visits with
      | known old rest =>
          obtain ⟨between, one, two⟩ := ih rest
          exact ⟨between, .known old one, two⟩
      | new absent inside rest =>
          obtain ⟨between, one, two⟩ := ih rest
          exact ⟨between, .new absent inside one, two⟩

theorem keeps (visits : Visits next pending seen after) : seen ⊆ after := by
  induction visits with
  | done => exact List.Subset.refl _
  | known _ _ ih => exact ih
  | new _ _ _ ihInside ihRest =>
      exact fun ref member => ihRest (ihInside (List.mem_cons_of_mem _ member))

theorem nodup (visits : Visits next pending seen after) (once : seen.Nodup) : after.Nodup := by
  induction visits with
  | done => exact once
  | known _ _ ih => exact ih once
  | new absent _ _ ihInside ihRest => exact ihRest (ihInside (List.nodup_cons.mpr ⟨absent, once⟩))

theorem covers (visits : Visits next pending seen after) : pending ⊆ after := by
  induction visits with
  | done => exact List.nil_subset _
  | known old rest ih => exact List.cons_subset.mpr ⟨rest.keeps old, ih⟩
  | new _ inside rest _ ihRest =>
      exact List.cons_subset.mpr ⟨rest.keeps (inside.keeps List.mem_cons_self), ihRest⟩

/-- What is inside a container that was met on the way was met too. -/
theorem closed (visits : Visits next pending seen after) :
    ∀ ref ∈ after, ref ∈ seen ∨ next ref ⊆ after := by
  induction visits with
  | done => exact fun ref member => .inl member
  | known _ _ ih => exact ih
  | new _ inside rest ihInside ihRest =>
      intro ref member
      rcases ihRest ref member with earlier | met
      · rcases ihInside ref earlier with opened | met
        · rcases List.mem_cons.mp opened with rfl | old
          · exact .inr fun child member => rest.keeps (inside.covers member)
          · exact .inl old
        · exact .inr fun child member => rest.keeps (met member)
      · exact .inr met

/-- What goes over from a container to what is inside it, all that are met have. -/
theorem forall_mem {property : Ref → Prop} (visits : Visits next pending seen after)
    (step : ∀ ref, property ref → ∀ child ∈ next ref, property child)
    (start : ∀ ref ∈ pending, property ref) (before : ∀ ref ∈ seen, property ref) :
    ∀ ref ∈ after, property ref := by
  induction visits with
  | done => exact before
  | known _ _ ih => exact ih (List.forall_mem_cons.mp start).2 before
  | new _ _ _ ihInside ihRest =>
      obtain ⟨first, later⟩ := List.forall_mem_cons.mp start
      exact ihRest later (ihInside (step _ first) (List.forall_mem_cons.mpr ⟨first, before⟩))

/-- In any order, the containers that are met are those that can be reached. -/
theorem mem_iff (order : ∀ ref, (next ref).Perm (heap.children ref))
    (visits : Visits next (refOf v).toList [] after) : ref ∈ after ↔ heap.Reached v ref := by
  constructor
  · intro member
    apply visits.forall_mem _ _ _ ref member
    · exact fun ref reached child inside => reached.inside ((order ref).mem_iff.mp inside)
    · exact fun ref start => .itself (Option.mem_toList.mp start)
    · exact fun ref before => absurd before List.not_mem_nil
  · intro reached
    induction reached with
    | itself found => exact visits.covers (Option.mem_toList.mpr found)
    | inside _ child ih =>
        rcases visits.closed _ ih with before | met
        · cases before
        · exact met ((order _).mem_iff.mpr child)

end Visits

/-! ## Visits end -/

/-- With a step for each pending container and for each that a container still to be opened holds, the
search makes the whole visit. -/
theorem visits_explore {remaining : List Ref} {fuel : Nat}
    (listed : ∀ ref, ref ∉ seen → next ref ≠ [] → ref ∈ remaining)
    (enough : pending.length + (remaining.map fun ref => (next ref).length).sum ≤ fuel) :
    Visits next pending seen (explore next fuel pending seen) := by
  induction fuel generalizing pending seen remaining with
  | zero =>
      cases pending with
      | nil => exact .done
      | cons ref pending =>
          rw [List.length_cons] at enough
          omega
  | succ fuel ih =>
      cases pending with
      | nil => exact .done
      | cons ref pending =>
          rw [List.length_cons] at enough
          rw [explore]
          split
          · rename_i old
            exact .known (List.contains_iff_mem.mp old) (ih listed (by omega))
          · rename_i absent
            have absent : ref ∉ seen := fun old => absent (List.contains_iff_mem.mpr old)
            obtain ⟨remaining', listed', fewer⟩ : ∃ remaining' : List Ref,
                (∀ other, other ∉ ref :: seen → next other ≠ [] → other ∈ remaining') ∧
                (next ref).length + (remaining'.map fun ref => (next ref).length).sum ≤
                  (remaining.map fun ref => (next ref).length).sum := by
              by_cases empty : next ref = []
              · refine ⟨remaining, fun other notYet holds => ?_, by simp [empty]⟩
                exact listed other (fun old => notYet (List.mem_cons_of_mem _ old)) holds
              · refine ⟨remaining.erase ref, fun other notYet holds => ?_, ?_⟩
                · rw [List.mem_cons, not_or] at notYet
                  exact (List.mem_erase_of_ne notYet.1).mpr (listed other notYet.2 holds)
                · apply Nat.le_of_eq
                  exact List.sum_map_erase (fun ref => (next ref).length) (listed ref absent empty)
            have enough' : (next ref ++ pending).length +
                (remaining'.map fun ref => (next ref).length).sum ≤ fuel := by
              rw [List.length_append]
              omega
            obtain ⟨between, inside, rest⟩ := (ih listed' enough').of_append
            exact .new absent inside rest

/-- The containers of the heap. -/
def refs (heap : Heap) : List Ref :=
  (List.range heap.arrays.size).map (fun i => .array ⟨i⟩) ++
    ((List.range heap.objects.size).map (fun i => .object ⟨i⟩) ++
      (List.range heap.tables.size).map (fun i => .table ⟨i⟩))

/-- The heap has the container. -/
def Holds (heap : Heap) : Ref → Prop
  | .array r => r.id < heap.arrays.size
  | .object r => r.id < heap.objects.size
  | .table r => r.id < heap.tables.size

theorem mem_refs : ref ∈ heap.refs ↔ heap.Holds ref := by
  cases ref with
  | array r =>
      obtain ⟨i⟩ := r
      simp [refs, Holds]
  | object r =>
      obtain ⟨i⟩ := r
      simp [refs, Holds]
  | table r =>
      obtain ⟨i⟩ := r
      simp [refs, Holds]

theorem length_refs (heap : Heap) : heap.refs.length = heap.size := by
  simp [refs, size, Nat.add_assoc]

theorem contents_of_not_holds (missing : ¬ heap.Holds ref) : heap.contents ref = [] := by
  cases ref with
  | array r => simp [contents, array, Array.getElem?_eq_none (Nat.not_lt.mp missing)]
  | object r => simp [contents, object, Dictionary.values, Array.getElem?_eq_none (Nat.not_lt.mp missing)]
  | table r => simp [contents, table, Array.getElem?_eq_none (Nat.not_lt.mp missing), Table.ofHeaders]

private theorem sum_range_getD {α : Type} (xs : Array α) (absent : α) (f : α → Nat) :
    ((List.range xs.size).map fun i => f (xs.getD i absent)).sum = xs.foldl (fun n x => n + f x) 0 := by
  have same : (List.range xs.size).map (fun i => f (xs.getD i absent)) = xs.toList.map f := by
    apply List.ext_getElem
    · simp
    · intro i _ inside
      rw [List.length_map, Array.length_toList] at inside
      simp [inside]
  rw [same, ← Array.foldl_toList, List.sum_eq_foldl, List.foldl_map]

theorem sum_contents (heap : Heap) :
    (heap.refs.map fun ref => (heap.contents ref).length).sum = heap.totalContents := by
  have arrays := sum_range_getD heap.arrays #[] Array.size
  have objects := sum_range_getD heap.objects .empty Dictionary.size
  have tables := sum_range_getD heap.tables (.ofHeaders []) fun t => t.rows.flatten.length
  simp only [refs, List.map_append, List.map_map, List.sum_append, Function.comp_def, contents, array, object,
    table, Array.length_toList, Dictionary.length_values, totalContents, arrays, objects, tables]
  omega

/-- In any order, the search for what can be reached from a value makes the whole visit. -/
theorem visits_reachable (order : ∀ ref, (next ref).Perm (heap.children ref)) (v : Value) :
    Visits next (refOf v).toList [] (explore next (heap.totalContents + 2) (refOf v).toList []) := by
  refine visits_explore (?_ : ∀ ref, ref ∉ [] → next ref ≠ [] → ref ∈ heap.refs) ?_
  · intro ref _ holds
    by_contra missing
    apply holds
    apply List.eq_nil_of_length_eq_zero
    rw [(order ref).length_eq, children, contents_of_not_holds (missing ∘ mem_refs.mpr)]
    rfl
  · have few : (heap.refs.map fun ref => (next ref).length).sum ≤ heap.totalContents := by
      rw [← sum_contents]
      apply List.sum_le_sum
      intro ref _
      rw [(order ref).length_eq]
      exact List.length_filterMap_le _ _
    have one : (refOf v).toList.length ≤ 1 := by
      cases refOf v with
      | none => exact Nat.zero_le _
      | some ref => exact Nat.le_refl _
    omega

end TableMachine.Heap
