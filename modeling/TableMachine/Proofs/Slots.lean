import TableMachine.Machine.State

/-! # Slots that grow

Slots of an activation and global slots are arrays that grow when one beyond their end is stored. Seen
through a reader that takes missing slots for null, storing changes the one slot and no other.
-/

namespace TableMachine.Frame

variable {slots stored : Array Value} {slot other : Int} {v : Value} {n : Nat}

theorem storeSlot?_isSome_iff : (storeSlot? slots slot v).isSome ↔ 0 ≤ slot ∧ slot < maxValues := by
  unfold storeSlot?
  split
  · rename_i outside
    simp only [Bool.or_eq_true, decide_eq_true_eq] at outside
    simp only [Option.isSome_none, Bool.false_eq_true, false_iff]
    omega
  · rename_i inside
    simp only [Bool.or_eq_true, decide_eq_true_eq] at inside
    simp only [Option.isSome_some, true_iff]
    omega

theorem exists_storeSlot? (slots : Array Value) (v : Value) (low : 0 ≤ slot)
    (high : slot < maxValues) : ∃ stored, storeSlot? slots slot v = some stored :=
  Option.isSome_iff_exists.mp (storeSlot?_isSome_iff.mpr ⟨low, high⟩)

/-- Slots that hold null cannot be told from missing ones. -/
private theorem getD_append_null (count : Nat) :
    (slots ++ Array.replicate count Value.null).getD n .null = slots.getD n .null := by
  simp only [Array.getD_eq_getD_getElem?]
  by_cases inside : n < slots.size
  · rw [Array.getElem?_append_left inside]
  · rw [Array.getElem?_append_right (Nat.le_of_not_lt inside),
      Array.getElem?_eq_none (Nat.le_of_not_lt inside), Array.getElem?_replicate]
    split <;> rfl

/-- The slots before one of them is stored, grown as far as that needs. -/
private theorem storeSlot?_grown (done : storeSlot? slots slot v = some stored) :
    ∃ grown : Array Value, slot.toNat < grown.size ∧ stored = grown.setIfInBounds slot.toNat v ∧
      ∀ n, grown.getD n .null = slots.getD n .null := by
  unfold storeSlot? at done
  split at done
  · cases done
  · cases done
    split
    · rename_i inside
      exact ⟨slots, inside, rfl, fun _ => rfl⟩
    · refine ⟨_, ?_, rfl, fun n => getD_append_null _⟩
      rw [Array.size_append, Array.size_replicate]
      omega

/-- Storing a slot changes that slot and no other. -/
theorem getD_of_storeSlot? (done : storeSlot? slots slot v = some stored) (n : Nat) :
    stored.getD n .null = if n = slot.toNat then v else slots.getD n .null := by
  obtain ⟨grown, inside, rfl, same⟩ := storeSlot?_grown done
  split
  · rename_i equal
    rw [equal, Array.getD_eq_getD_getElem?, Array.getElem?_setIfInBounds_self_of_lt inside]
    rfl
  · rename_i differs
    rw [← same n, Array.getD_eq_getD_getElem?, Array.getD_eq_getD_getElem?,
      Array.getElem?_setIfInBounds_ne (Ne.symm differs)]

/-- Slots that are missing and slots that hold null told apart: storing one fills the gap before it with null. -/
theorem getElem?_of_storeSlot? (done : storeSlot? slots slot v = some stored) (n : Nat) :
    stored[n]? = if n = slot.toNat then some v else if n < slots.size then slots[n]?
      else if n < slot.toNat then some .null else none := by
  unfold storeSlot? at done
  split at done
  · cases done
  · cases done
    split <;> grind

/-- The same through the reader of an activation, for which slots below zero are missing too. -/
theorem local_of_storeSlot? {f g : Frame} (done : storeSlot? f.slots slot v = some g.slots)
    (other : Int) : g.local_ other = if other = slot then v else f.local_ other := by
  have bounds := storeSlot?_isSome_iff.mp (Option.isSome_of_eq_some done)
  unfold local_
  rw [getD_of_storeSlot? done]
  by_cases negative : other < 0
  · rw [if_pos negative, if_pos negative, if_neg (by omega)]
  · rw [if_neg negative, if_neg negative]
    by_cases same : other = slot
    · rw [if_pos same, if_pos (by rw [same])]
    · rw [if_neg same, if_neg (by omega)]

/-- What stands in the slots after storing one was there before, was stored, or fills a gap. -/
theorem mem_of_storeSlot? {x : Value} (done : storeSlot? slots slot v = some stored)
    (member : x ∈ stored) : x ∈ slots ∨ x = .null ∨ x = v := by
  unfold storeSlot? at done
  split at done
  · cases done
  · cases done
    rcases Array.mem_or_eq_of_mem_setIfInBounds member with before | new
    · split at before
      · exact .inl before
      · exact (Array.mem_append.mp before).imp_right fun gap => .inl (Array.eq_of_mem_replicate gap)
    · exact .inr (.inr new)

section Writes

variable {α : Type} {target : α → Int} {value value' : α → Value} {writes : List α}

/-- What stands in the slots after several were stored was there before, was stored, or fills a gap. -/
theorem mem_of_foldlM_storeSlot? {x : Value}
    (done : writes.foldlM (fun slots w => storeSlot? slots (target w) (value w)) slots = some stored)
    (member : x ∈ stored) : x ∈ slots ∨ x = .null ∨ ∃ w ∈ writes, x = value w := by
  induction writes generalizing slots with
  | nil =>
      cases done
      exact .inl member
  | cons w rest ih =>
      rw [List.foldlM_cons] at done
      obtain ⟨first, one, done⟩ := Option.bind_eq_some_iff.mp done
      rcases ih done with before | null | ⟨w', later, rfl⟩
      · rcases mem_of_storeSlot? one before with old | null | rfl
        · exact .inl old
        · exact .inr (.inl null)
        · exact .inr (.inr ⟨w, List.mem_cons_self, rfl⟩)
      · exact .inr (.inl null)
      · exact .inr (.inr ⟨w', List.mem_cons_of_mem _ later, rfl⟩)

theorem foldlM_storeSlot?_congr (same : ∀ w ∈ writes, value w = value' w) :
    writes.foldlM (fun slots w => storeSlot? slots (target w) (value w)) slots =
      writes.foldlM (fun slots w => storeSlot? slots (target w) (value' w)) slots := by
  induction writes generalizing slots with
  | nil => rfl
  | cons w rest ih =>
      obtain ⟨first, later⟩ := List.forall_mem_cons.mp same
      rw [List.foldlM_cons, List.foldlM_cons, first]
      congr 1
      funext slots
      exact ih later

/-- Slots that can exist can be stored one after the other. -/
theorem exists_foldlM_storeSlot? (target : α → Int) (value : α → Value) (writes : List α)
    (slots : Array Value) (bounds : ∀ w ∈ writes, 0 ≤ target w ∧ target w < maxValues) :
    ∃ stored, writes.foldlM (fun slots w => storeSlot? slots (target w) (value w)) slots = some stored ∧
      ∀ x ∈ stored, x ∈ slots ∨ x = .null ∨ ∃ w ∈ writes, x = value w := by
  have stores : ∃ stored,
      writes.foldlM (fun slots w => storeSlot? slots (target w) (value w)) slots = some stored := by
    induction writes generalizing slots with
    | nil => exact ⟨slots, rfl⟩
    | cons w rest ih =>
        obtain ⟨⟨low, high⟩, bounds⟩ := List.forall_mem_cons.mp bounds
        obtain ⟨first, done⟩ := exists_storeSlot? slots (value w) low high
        obtain ⟨stored, rest_⟩ := ih first bounds
        exact ⟨stored, by rw [List.foldlM_cons, done]; exact rest_⟩
  obtain ⟨stored, done⟩ := stores
  exact ⟨stored, done, fun x => mem_of_foldlM_storeSlot? done⟩

end Writes

end TableMachine.Frame
