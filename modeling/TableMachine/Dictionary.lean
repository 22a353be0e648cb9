/-! # Dictionaries

A dictionary maps keys to values. Its entries are kept in the order of their keys, each key once, so the
order in which they were stored cannot be seen, and two dictionaries with the same entries are one.
-/

namespace TableMachine

/-- Entries in the order of their keys. -/
@[ext]
structure Dictionary (κ α : Type) [LT κ] where
  entries : List (κ × α)
  sorted : entries.Pairwise fun a b => a.1 < b.1
deriving DecidableEq, Repr

namespace Dictionary

variable {κ α β : Type} [LT κ]

/-- The dictionary without entries. -/
def empty : Dictionary κ α := ⟨[], .nil⟩

@[simp] theorem entries_empty : (empty : Dictionary κ α).entries = [] := rfl

instance : Inhabited (Dictionary κ α) := ⟨empty⟩

/-- The keys in order. -/
def keys (d : Dictionary κ α) : List κ := d.entries.map (·.1)

/-- The values in the order of their keys. -/
def values (d : Dictionary κ α) : List α := d.entries.map (·.2)

/-- The number of keys. -/
def size (d : Dictionary κ α) : Nat := d.entries.length

theorem length_keys (d : Dictionary κ α) : d.keys.length = d.size := List.length_map _

theorem length_values (d : Dictionary κ α) : d.values.length = d.size := List.length_map _

/-- The dictionary with every value replaced. -/
def mapValues (f : α → β) (d : Dictionary κ α) : Dictionary κ β where
  entries := d.entries.map fun (key, x) => (key, f x)
  sorted := d.sorted.map _ fun _ _ below => below

@[simp] theorem entries_mapValues (f : α → β) (d : Dictionary κ α) :
    (d.mapValues f).entries = d.entries.map fun (key, x) => (key, f x) := rfl

@[simp] theorem values_mapValues (f : α → β) (d : Dictionary κ α) : (d.mapValues f).values = d.values.map f := by
  simp [values, Function.comp_def]

@[simp] theorem size_mapValues (f : α → β) (d : Dictionary κ α) : (d.mapValues f).size = d.size :=
  List.length_map _

variable [DecidableEq κ]

/-- The value stored under a key. -/
def get? (d : Dictionary κ α) (key : κ) : Option α := d.entries.lookup key

variable {d : Dictionary κ α} {entries : List (κ × α)} {key : κ} {x : α}

theorem mem_of_get? (found : d.get? key = some x) : (key, x) ∈ d.entries := by
  obtain ⟨front, back, parts, _⟩ := List.lookup_eq_some_iff.mp found
  rw [parts]
  exact List.mem_append_right front List.mem_cons_self

variable [DecidableLT κ]

/-- Entries with one put where its key belongs, in place of an earlier one. -/
def place (key : κ) (x : α) : List (κ × α) → List (κ × α)
  | [] => [(key, x)]
  | (k, y) :: rest =>
    if key = k then (key, x) :: rest
    else if key < k then (key, x) :: (k, y) :: rest
    else (k, y) :: place key x rest

theorem mem_place {entry : κ × α} (member : entry ∈ place key x entries) :
    entry = (key, x) ∨ entry ∈ entries := by
  induction entries with
  | nil => exact .inl (List.mem_singleton.mp member)
  | cons first rest ih =>
      rw [place] at member
      split at member
      · exact (List.mem_cons.mp member).imp_right (List.mem_cons_of_mem _)
      · split at member
        · exact List.mem_cons.mp member
        · rcases List.mem_cons.mp member with rfl | member
          · exact .inr List.mem_cons_self
          · exact (ih member).imp_right (List.mem_cons_of_mem _)

section LinearOrder

variable [LE κ] [Std.IsLinearOrder κ] [Std.LawfulOrderLT κ]

theorem place_sorted (sorted : entries.Pairwise fun a b => a.1 < b.1) :
    (place key x entries).Pairwise fun a b => a.1 < b.1 := by
  induction entries with
  | nil => exact List.pairwise_singleton _ _
  | cons first rest ih =>
      obtain ⟨k, y⟩ := first
      obtain ⟨below, sorted⟩ := List.pairwise_cons.mp sorted
      rw [place]
      split
      · rename_i same
        exact List.pairwise_cons.mpr ⟨same ▸ below, sorted⟩
      · split
        · rename_i less
          refine List.pairwise_cons.mpr ⟨?_, List.pairwise_cons.mpr ⟨below, sorted⟩⟩
          intro e member
          rcases List.mem_cons.mp member with rfl | member
          · exact less
          · exact Trans.trans less (below e member)
        · rename_i different notLess
          refine List.pairwise_cons.mpr ⟨?_, ih sorted⟩
          intro e member
          rcases mem_place member with rfl | member
          · simp only
            grind
          · exact below e member

/-- The dictionary with a value stored under a key, in place of an earlier one. -/
def set (d : Dictionary κ α) (key : κ) (x : α) : Dictionary κ α where
  entries := place key x d.entries
  sorted := place_sorted d.sorted

/-- The dictionary with the given entries; of two with one key the later stays. -/
def ofEntries (entries : List (κ × α)) : Dictionary κ α :=
  entries.foldl (fun d (key, x) => d.set key x) empty

end LinearOrder

end Dictionary

end TableMachine
