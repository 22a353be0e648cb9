/-! # Stacks that know their height

The latest item stands first. Positions and heights are counted from the bottom, as a running
program remembers them; the height is kept beside the items, so that asking for it is cheap.
-/

namespace TableMachine

/-- A stack, its latest item first. -/
structure Stack (α : Type) where
  items : List α
  height : Nat
  height_eq : height = items.length

namespace Stack

variable {α : Type}

/-- The stack of the given items, the latest first. -/
def ofList (items : List α) : Stack α := ⟨items, items.length, rfl⟩

/-- The stack without items. -/
def empty : Stack α := ofList []

instance : Inhabited (Stack α) := ⟨empty⟩

@[ext]
theorem ext {s t : Stack α} (items : s.items = t.items) : s = t := by
  obtain ⟨xs, n, hn⟩ := s
  obtain ⟨ys, m, hm⟩ := t
  simp only at items
  subst items hn hm
  rfl

/-- The stack with an item on top. -/
def push (s : Stack α) (x : α) : Stack α :=
  ⟨x :: s.items, s.height + 1, by simp [s.height_eq]⟩

/-- The latest item. -/
def top? (s : Stack α) : Option α := s.items.head?

/-- The stack without its `count` latest items. -/
def drop (s : Stack α) (count : Nat) : Stack α :=
  ⟨s.items.drop count, s.height - count, by simp [s.height_eq]⟩

/-- The `count` latest items, the earliest of them first. -/
def latest (s : Stack α) (count : Nat) : List α := (s.items.take count).reverse

/-- The stack cut down to a height; one that is not higher stays. -/
def truncate (s : Stack α) (height : Nat) : Stack α := s.drop (s.height - height)

/-- The item at a position counted from the bottom. -/
def get? (s : Stack α) (position : Nat) : Option α :=
  if position < s.height then s.items[s.height - 1 - position]? else none

/-- The stack with its latest item changed. -/
def modifyTop (s : Stack α) (f : α → α) : Stack α :=
  match s with
  | ⟨[], n, h⟩ => ⟨[], n, h⟩
  | ⟨x :: rest, n, h⟩ => ⟨f x :: rest, n, by simpa using h⟩

/-- The stack without the latest items that satisfy `p`. -/
def dropWhile (s : Stack α) (p : α → Bool) : Stack α := ofList (s.items.dropWhile p)

/-- Whether the stack is without items. -/
def isEmpty (s : Stack α) : Bool := s.items.isEmpty

@[simp] theorem height_empty : (empty : Stack α).height = 0 := rfl

@[simp] theorem items_push (s : Stack α) (x : α) : (s.push x).items = x :: s.items := rfl

@[simp] theorem items_drop (s : Stack α) (n : Nat) : (s.drop n).items = s.items.drop n := rfl

@[simp] theorem items_truncate (s : Stack α) (n : Nat) :
    (s.truncate n).items = s.items.drop (s.items.length - n) := by
  simp [truncate, s.height_eq]

@[simp] theorem items_ofList (items : List α) : (ofList items).items = items := rfl

end Stack

end TableMachine
