import TableMachine.Machine.Stack

/-! # Positions in a stack

A running program remembers positions and heights counted from the bottom, while the items of a stack
stand with the latest first. Here every operation is described by what it does to positions: pushing
and cutting never move an item, so a remembered position keeps its meaning as long as the stack does
not sink below it.
-/

namespace TableMachine.Stack

variable {α : Type} {s : Stack α} {x y : α} {n p : Nat}

@[simp] theorem height_push : (s.push x).height = s.height + 1 := rfl

@[simp] theorem height_drop : (s.drop n).height = s.height - n := rfl

@[simp] theorem height_truncate : (s.truncate n).height = min s.height n := by
  simp only [truncate, height_drop]
  omega

@[simp] theorem items_modifyTop (f : α → α) : (s.modifyTop f).items = s.items.modifyHead f := by
  obtain ⟨items, height, height_eq⟩ := s
  cases items with
  | nil => rfl
  | cons x rest => rfl

@[simp] theorem height_modifyTop (f : α → α) : (s.modifyTop f).height = s.height := by
  rw [height_eq, height_eq, items_modifyTop, List.length_modifyHead]

@[simp] theorem drop_zero : s.drop 0 = s := ext rfl

theorem drop_drop (m n : Nat) : (s.drop m).drop n = s.drop (m + n) := by
  apply ext
  simp only [items_drop, List.drop_drop]

/-! ## Positions -/

/-- Positions run through the items from the earliest on. -/
theorem get?_eq_reverse (s : Stack α) (p : Nat) : s.get? p = s.items.reverse[p]? := by
  unfold get?
  rw [s.height_eq]
  split
  · rename_i inside
    rw [List.getElem?_reverse inside]
  · rename_i outside
    rw [List.getElem?_eq_none (by simpa using outside)]

theorem lt_height_of_get? (found : s.get? p = some x) : p < s.height := by
  unfold get? at found
  split at found
  · assumption
  · cases found

theorem exists_get? (inside : p < s.height) : ∃ x, s.get? p = some x := by
  rw [s.height_eq] at inside
  rw [get?_eq_reverse]
  exact ⟨_, List.getElem?_eq_getElem (by simpa using inside)⟩

theorem mem_iff_get? : x ∈ s.items ↔ ∃ p, s.get? p = some x := by
  simp only [get?_eq_reverse, ← List.mem_iff_getElem?, List.mem_reverse]

theorem get?_push_of_lt (inside : p < s.height) : (s.push x).get? p = s.get? p := by
  rw [s.height_eq] at inside
  rw [get?_eq_reverse, get?_eq_reverse, items_push, List.reverse_cons,
    List.getElem?_append_left (by simpa using inside)]

theorem get?_push_height : (s.push x).get? s.height = some x := by
  rw [get?_eq_reverse, items_push, List.reverse_cons, s.height_eq,
    List.getElem?_append_right (by simp)]
  simp

/-- What stands in a stack with a further item is that item or stood there before. -/
theorem get?_push_cases (found : (s.push x).get? p = some y) :
    (p < s.height ∧ s.get? p = some y) ∨ (p = s.height ∧ y = x) := by
  have inside := lt_height_of_get? found
  rw [height_push] at inside
  by_cases below : p < s.height
  · exact .inl ⟨below, by rwa [get?_push_of_lt below] at found⟩
  · have atTop : p = s.height := by omega
    subst atTop
    rw [get?_push_height] at found
    exact .inr ⟨rfl, (Option.some.inj found).symm⟩

theorem get?_drop_of_lt (inside : p < s.height - n) : (s.drop n).get? p = s.get? p := by
  simp only [get?, height_drop, items_drop, List.getElem?_drop]
  rw [if_pos inside, if_pos (by omega)]
  congr 1
  omega

/-- Cutting a stack loses items and moves none. -/
theorem get?_of_get?_drop (found : (s.drop n).get? p = some x) : s.get? p = some x := by
  have inside := lt_height_of_get? found
  rw [height_drop] at inside
  rwa [get?_drop_of_lt inside] at found

theorem get?_truncate_of_lt (inside : p < n) : (s.truncate n).get? p = s.get? p := by
  by_cases present : p < s.height
  · exact get?_drop_of_lt (by omega)
  · unfold get?
    rw [if_neg (by simp only [height_truncate]; omega), if_neg present]

theorem get?_of_get?_truncate (found : (s.truncate n).get? p = some x) : s.get? p = some x :=
  get?_of_get?_drop found

/-! ## The latest item -/

theorem top?_eq_some_iff : s.top? = some x ↔ ∃ rest, s.items = x :: rest := by
  unfold top?
  cases s.items with
  | nil => simp
  | cons y rest => simp

theorem top?_eq_get? : s.top? = s.get? (s.height - 1) := by
  rw [get?_eq_reverse, s.height_eq]
  unfold top?
  cases s.items with
  | nil => rfl
  | cons x rest => simp

theorem exists_top? (inhabited : 0 < s.height) : ∃ x, s.top? = some x := by
  rw [top?_eq_get?]
  exact exists_get? (by omega)

@[simp] theorem top?_modifyTop (f : α → α) : (s.modifyTop f).top? = s.top?.map f := by
  unfold top?
  rw [items_modifyTop]
  cases s.items with
  | nil => rfl
  | cons x rest => rfl

theorem get?_modifyTop_of_lt (f : α → α) (below : p + 1 < s.height) :
    (s.modifyTop f).get? p = s.get? p := by
  rw [s.height_eq] at below
  rw [get?_eq_reverse, get?_eq_reverse, items_modifyTop]
  cases items : s.items with
  | nil => rfl
  | cons x rest =>
      rw [items] at below
      simp only [List.length_cons] at below
      simp only [List.modifyHead_cons, List.reverse_cons]
      rw [List.getElem?_append_left (by simp; omega), List.getElem?_append_left (by simp; omega)]

/-- Changing the latest item keeps every position; only what stands at the top may differ. -/
theorem get?_modifyTop_cases (f : α → α) (found : (s.modifyTop f).get? p = some y) :
    ∃ x, s.get? p = some x ∧ ((y = x ∧ p + 1 < s.height) ∨ (y = f x ∧ p + 1 = s.height)) := by
  have inside := lt_height_of_get? found
  rw [height_modifyTop] at inside
  by_cases below : p + 1 < s.height
  · rw [get?_modifyTop_of_lt f below] at found
    exact ⟨y, found, .inl ⟨rfl, below⟩⟩
  · have atTop : p = (s.modifyTop f).height - 1 := by rw [height_modifyTop]; omega
    rw [atTop, ← top?_eq_get?, top?_modifyTop, Option.map_eq_some_iff] at found
    obtain ⟨x, top, rfl⟩ := found
    rw [top?_eq_get?] at top
    rw [height_modifyTop] at atTop
    exact ⟨x, atTop ▸ top, .inr ⟨rfl, by omega⟩⟩

theorem mem_modifyTop {f : α → α} (member : y ∈ (s.modifyTop f).items) :
    y ∈ s.items ∨ ∃ x ∈ s.items, y = f x := by
  obtain ⟨p, found⟩ := mem_iff_get?.mp member
  obtain ⟨x, before, ⟨rfl, _⟩ | ⟨rfl, _⟩⟩ := get?_modifyTop_cases f found
  · exact .inl (mem_iff_get?.mpr ⟨p, before⟩)
  · exact .inr ⟨x, mem_iff_get?.mpr ⟨p, before⟩, rfl⟩

theorem get?_modifyTop_of_get? (f : α → α) (found : s.get? p = some x) :
    (s.modifyTop f).get? p = some (if p + 1 = s.height then f x else x) := by
  have inside := lt_height_of_get? found
  by_cases below : p + 1 < s.height
  · rw [get?_modifyTop_of_lt f below, if_neg (by omega), found]
  · have atTop : p = s.height - 1 := by omega
    rw [if_pos (by omega), atTop, ← height_modifyTop f, ← top?_eq_get?, top?_modifyTop,
      top?_eq_get?, ← atTop, found]
    rfl

/-! ## Heights -/

/-- Dropping an item that lies above a height does not matter to what is below it. -/
theorem truncate_drop (above : n + p ≤ s.height) : (s.drop p).truncate n = s.truncate n := by
  apply ext
  simp only [truncate, items_drop, height_drop, List.drop_drop]
  congr 1
  omega

theorem truncate_of_height_le (low : s.height ≤ n) : s.truncate n = s := by
  apply ext
  simp only [truncate, items_drop]
  rw [show s.height - n = 0 by omega, List.drop_zero]

theorem truncate_truncate (le : n ≤ p) : (s.truncate p).truncate n = s.truncate n := by
  apply ext
  simp only [truncate, items_drop, height_drop, List.drop_drop]
  congr 1
  omega

theorem truncate_push (le : n ≤ s.height) : (s.push x).truncate n = s.truncate n := by
  apply ext
  simp only [truncate, items_drop, height_push, items_push]
  rw [show s.height + 1 - n = (s.height - n) + 1 by omega, List.drop_succ_cons]

end TableMachine.Stack
