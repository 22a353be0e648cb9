import Mathlib.Data.List.Induction
import TableMachine.Dictionary

/-! # Reading dictionaries

What is stored under a key is read under it, and of several values given for one key the last is. Entries
with different keys make one dictionary, whatever order they are given in.
-/

namespace TableMachine.Dictionary

section Reading

variable {κ α : Type} [LT κ] [LE κ] [Std.IsLinearOrder κ] [Std.LawfulOrderLT κ]

theorem nodup_keys (d : Dictionary κ α) : d.keys.Nodup := by
  rw [keys, List.Nodup, List.pairwise_map]
  exact d.sorted.imp fun below => by grind

variable [DecidableEq κ] {d : Dictionary κ α} {key : κ} {x : α}

theorem get?_of_mem (stored : (key, x) ∈ d.entries) : d.get? key = some x := by
  obtain ⟨front, back, parts⟩ := List.append_of_mem stored
  refine List.lookup_eq_some_iff.mpr ⟨front, back, parts, fun entry before => bne_iff_ne.mpr ?_⟩
  -- What stands in front of the entry has a smaller key.
  have sorted := parts ▸ d.sorted
  have below := (List.pairwise_append.mp sorted).2.2 entry before _ List.mem_cons_self
  grind

end Reading

/-! ## Putting an entry in its place -/

section Placing

variable {κ α : Type} [LT κ] [DecidableEq κ] [DecidableLT κ] {entries : List (κ × α)} {key : κ} {x : α}

theorem lookup_place (key : κ) (x : α) (entries : List (κ × α)) (other : κ) :
    (place key x entries).lookup other = if other = key then some x else entries.lookup other := by
  induction entries with
  | nil => simp only [place, List.lookup_cons, List.lookup_nil]; grind
  | cons first rest ih =>
      obtain ⟨k, y⟩ := first
      rw [place]
      split
      · simp only [List.lookup_cons]; grind
      · split
        · simp only [List.lookup_cons]; grind
        · simp only [List.lookup_cons, ih]; grind

theorem length_place_le (key : κ) (x : α) (entries : List (κ × α)) :
    (place key x entries).length ≤ entries.length + 1 := by
  induction entries with
  | nil => simp [place]
  | cons entry rest ih =>
      rw [place]
      split
      · simp
      · split
        · simp
        · simpa using ih

theorem place_perm (fresh : key ∉ entries.map Prod.fst) :
    (place key x entries).Perm ((key, x) :: entries) := by
  induction entries with
  | nil => exact .refl _
  | cons entry rest ih =>
      obtain ⟨k, y⟩ := entry
      simp only [List.map_cons, List.mem_cons, not_or] at fresh
      rw [place, if_neg fresh.1]
      split
      · exact .refl _
      · exact ((ih fresh.2).cons _).trans (.swap _ _ _)

end Placing

/-! ## Storing -/

variable {κ α : Type} [LT κ] [DecidableEq κ] [DecidableLT κ] [LE κ] [Std.IsLinearOrder κ]
  [Std.LawfulOrderLT κ] {d : Dictionary κ α} {entries : List (κ × α)} {key : κ} {x : α} {p : Nat}

theorem get?_set (d : Dictionary κ α) (key : κ) (x : α) (other : κ) :
    (d.set key x).get? other = if other = key then some x else d.get? other :=
  lookup_place key x d.entries other

theorem ofEntries_concat (entries : List (κ × α)) (entry : κ × α) :
    ofEntries (entries ++ [entry]) = (ofEntries entries).set entry.1 entry.2 := by
  simp only [ofEntries, List.foldl_append, List.foldl_cons, List.foldl_nil]

theorem get?_ofEntries (entries : List (κ × α)) (key : κ) :
    (ofEntries entries).get? key = entries.reverse.lookup key := by
  induction entries using List.reverseRecOn with
  | nil => rfl
  | append_singleton entries entry ih =>
      rw [ofEntries_concat, get?_set, ih, List.reverse_append, List.reverse_singleton, List.singleton_append,
        List.lookup_cons]
      grind

/-- Of the entries with one key the last is kept. -/
theorem get?_ofEntries_of_last (found : entries[p]? = some (key, x))
    (later : ∀ j y, p < j → entries[j]? ≠ some (key, y)) : (ofEntries entries).get? key = some x := by
  obtain ⟨inside, here⟩ := List.getElem?_eq_some_iff.mp found
  -- Read from the end, the entries behind the position come first, and none of them has the key.
  have none_ : (entries.drop (p + 1)).reverse.lookup key = none := by
    apply List.lookup_eq_none_iff.mpr
    intro entry member
    obtain ⟨j, place⟩ := List.mem_iff_getElem?.mp (List.mem_reverse.mp member)
    rw [List.getElem?_drop] at place
    apply bne_iff_ne.mpr
    rintro rfl
    exact later (p + 1 + j) entry.2 (by omega) place
  have parts : entries = entries.take p ++ (key, x) :: entries.drop (p + 1) := by
    rw [← here, ← List.drop_eq_getElem_cons inside, List.take_append_drop]
  rw [get?_ofEntries, parts, List.reverse_append, List.reverse_cons, List.lookup_append, List.lookup_append,
    none_, List.lookup_cons_self]
  rfl

theorem mem_ofEntries {entry : κ × α} (member : entry ∈ (ofEntries entries).entries) : entry ∈ entries := by
  induction entries using List.reverseRecOn with
  | nil => exact member
  | append_singleton entries last ih =>
      rw [ofEntries_concat] at member
      rcases mem_place member with rfl | earlier
      · exact List.mem_append_right _ List.mem_cons_self
      · exact List.mem_append_left _ (ih earlier)

theorem size_ofEntries_le (entries : List (κ × α)) : (ofEntries entries).size ≤ entries.length := by
  induction entries using List.reverseRecOn with
  | nil => exact Nat.le_refl 0
  | append_singleton entries entry ih =>
      rw [ofEntries_concat, List.length_append, List.length_singleton]
      exact Nat.le_trans (length_place_le _ _ _) (Nat.succ_le_succ ih)

theorem ofEntries_perm (once : (entries.map Prod.fst).Nodup) : (ofEntries entries).entries.Perm entries := by
  induction entries using List.reverseRecOn with
  | nil => exact .refl _
  | append_singleton entries entry ih =>
      rw [List.map_append, List.nodup_append] at once
      obtain ⟨once, _, apart⟩ := once
      have same := ih once
      have fresh : entry.1 ∉ (ofEntries entries).entries.map Prod.fst := by
        rw [(same.map Prod.fst).mem_iff]
        exact fun earlier => apart _ earlier _ List.mem_cons_self rfl
      rw [ofEntries_concat]
      exact ((place_perm fresh).trans (same.cons _)).trans (List.perm_append_singleton _ _).symm

/-- A dictionary is made of its entries, whatever order they are given in. -/
theorem ofEntries_eq_of_perm (perm : entries.Perm d.entries) : ofEntries entries = d := by
  have once : (entries.map Prod.fst).Nodup := (perm.map Prod.fst).nodup_iff.mpr d.nodup_keys
  have same : (ofEntries entries).entries = d.entries :=
    ((ofEntries_perm once).trans perm).eq_of_pairwise (fun _ _ _ _ below above => by grind)
      (ofEntries entries).sorted d.sorted
  exact Dictionary.ext same

end TableMachine.Dictionary
