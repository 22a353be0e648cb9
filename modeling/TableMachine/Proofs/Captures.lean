import TableMachine.Proofs.Clearing
import TableMachine.Proofs.Remembering
import TableMachine.Proofs.Slots

/-! # The slots of a new activation

A call writes the captured variables of the function into the slots of its activation, in their order, and
then the arguments over them. None of these writes makes the slots grow, since they were counted before. So
a slot holds its argument if it belongs to a parameter, else what the last capture that names it found, and
null if none does.
-/

namespace TableMachine

/-! ## Writing slots one after the other -/

namespace Frame

variable {α : Type} {target : α → Int} {value : α → Value} {writes : List α} {slots stored : Array Value}
  {slot : Int} {v : Value}

theorem size_of_storeSlot? (done : storeSlot? slots slot v = some stored) (inside : slot < slots.size) :
    stored.size = slots.size := by
  unfold storeSlot? at done
  split at done
  · cases done
  · rename_i exists_
    simp only [Bool.or_eq_true, decide_eq_true_eq] at exists_
    cases done
    rw [Array.size_setIfInBounds, if_pos (by omega)]

/-- Writes to slots that are there make no further ones. -/
theorem size_of_foldlM_storeSlot?
    (done : writes.foldlM (fun slots w => storeSlot? slots (target w) (value w)) slots = some stored)
    (inside : ∀ w ∈ writes, target w < slots.size) : stored.size = slots.size := by
  induction writes generalizing slots with
  | nil =>
      cases done
      rfl
  | cons w rest ih =>
      obtain ⟨first, later⟩ := List.forall_mem_cons.mp inside
      rw [List.foldlM_cons] at done
      obtain ⟨between, one, done⟩ := Option.bind_eq_some_iff.mp done
      have size := size_of_storeSlot? one first
      rw [ih done (by rwa [size]), size]

/-- Of several writes to a slot the last one stays. -/
theorem getD_of_foldlM_storeSlot?
    (done : writes.foldlM (fun slots w => storeSlot? slots (target w) (value w)) slots = some stored)
    (n : Nat) : stored.getD n .null =
      ((writes.reverse.find? fun w => target w = n).map value).getD (slots.getD n .null) := by
  induction writes generalizing slots with
  | nil =>
      cases done
      rfl
  | cons w rest ih =>
      rw [List.foldlM_cons] at done
      obtain ⟨between, one, done⟩ := Option.bind_eq_some_iff.mp done
      have bounds := storeSlot?_isSome_iff.mp (Option.isSome_of_eq_some one)
      have same : n = (target w).toNat ↔ target w = n := by omega
      rw [ih done, getD_of_storeSlot? one, List.reverse_cons, List.find?_append]
      cases later : rest.reverse.find? fun w => target w = n with
      | some last => rfl
      | none => by_cases written : target w = n <;> simp [written, same]

end Frame

/-! ## Counting slots -/

namespace Function

variable {f : Function} {c : Capture}

private theorem le_foldl_max {captures : List Capture} (need : Capture → Int) (base : Int) :
    base ≤ captures.foldl (fun n c => max n (need c)) base ∧
      ∀ c ∈ captures, need c ≤ captures.foldl (fun n c => max n (need c)) base := by
  induction captures generalizing base with
  | nil => exact ⟨Int.le_refl _, nofun⟩
  | cons c rest ih =>
      obtain ⟨low, each⟩ := ih (max base (need c))
      refine ⟨Int.le_trans (Int.le_max_left _ _) low, List.forall_mem_cons.mpr ⟨?_, each⟩⟩
      exact Int.le_trans (Int.le_max_right _ _) low

theorem le_slotCount (f : Function) : f.paramStart + f.arity ≤ f.slotCount := by
  unfold slotCount
  rw [← Array.foldl_toList]
  exact (le_foldl_max _ _).1

theorem lt_slotCount (member : c ∈ f.captures) (low : 0 ≤ c.target) (high : c.target < pow2 31) :
    c.target < f.slotCount := by
  have narrow : (pow2 31 : Int) < (pow2 64 + 1) / 2 := by decide
  have counted : Int.bmod (c.target + 1) (pow2 64) ≤ f.slotCount := by
    unfold slotCount
    rw [← Array.foldl_toList]
    exact (le_foldl_max (fun c => Int.bmod (c.target + 1) (pow2 64)) _).2 c (Array.mem_toList_iff.mpr member)
  rw [Int.bmod_eq_of_le (by omega) (by omega)] at counted
  omega

/-- The last capture that writes a slot. -/
def captureOf? (f : Function) (slot : Nat) : Option Capture :=
  f.captures.toList.reverse.find? fun c => c.target = slot

end Function

namespace Machine

variable {s : Setup} {m m' : Machine} {frame called : Frame} {i : Chunk.Instruction} {index : Int}
  {f : Function} {arguments : List Value} {slots : Array Value}

/-- What a slot of the activation `depth` levels below the innermost one holds, if there are such an
activation and such a slot. -/
def below? (m : Machine) : (depth slot : Int) → Option Value
  | .ofNat level, .ofNat position => m.frames.items[level]?.bind (·.slots[position]?)
  | _, _ => none

theorem captured_eq_below? (m : Machine) (c : Capture) :
    m.captured c = (m.below? c.depth c.source).getD .null := by
  unfold captured
  cases c.depth with
  | negSucc n =>
      rw [if_pos (Int.negSucc_lt_zero n)]
      rfl
  | ofNat level =>
      have nonneg : ¬ Int.ofNat level < 0 := by simp
      rw [if_neg nonneg]
      cases found : m.frames.items[level]? with
      | none => cases c.source <;> simp [found, below?]
      | some ancestor =>
          cases c.source with
          | negSucc n => simp [found, below?, Frame.local_]
          | ofNat position =>
              simp [found, below?, Frame.local_, Int.not_lt.mpr (Int.natCast_nonneg position)]

theorem captured_fetched (m : Machine) (frame : Frame) (i : Chunk.Instruction) (c : Capture) :
    (m.fetched frame i).captured c = m.captured c := by
  unfold captured fetched modifyFrame
  rw [Stack.items_modifyTop]
  cases m.frames.items with
  | nil => rfl
  | cons top rest => cases c.depth.toNat <;> rfl

/-! ## New slots -/

private theorem find?_zipIdx (start n : Nat) (arguments : List Value) :
    (arguments.zipIdx.reverse.find? fun w => (start + w.2 : Int) = n).map (·.1) =
      if start ≤ n then arguments[n - start]? else none := by
  cases found : arguments.zipIdx.reverse.find? fun w => (start + w.2 : Int) = n with
  | none =>
      rw [List.find?_eq_none] at found
      split
      · rename_i low
        rw [Option.map_none, eq_comm, Option.eq_none_iff_forall_ne_some]
        intro v given
        have listed := List.mem_reverse.mpr (List.mk_mem_zipIdx_iff_getElem?.mpr given)
        exact found _ listed (decide_eq_true (by omega))
      · rfl
  | some w =>
      have place : (start + w.2 : Int) = n := by simpa using List.find?_some found
      have given := List.mem_zipIdx_iff_getElem?.mp (List.mem_reverse.mp (List.mem_of_find?_eq_some found))
      rw [if_pos (by omega), Option.map_some, ← given]
      congr 1
      omega

/-- The two series of writes that fill the slots of a new activation. -/
private theorem exists_writes (made : m.newSlots? f arguments = some slots) : ∃ copied,
    f.captures.toList.foldlM (fun slots c => Frame.storeSlot? slots c.target (m.captured c))
      (Array.replicate f.slotCount.toNat .null) = some copied ∧
    arguments.zipIdx.foldlM (fun slots w => Frame.storeSlot? slots (f.paramStart + w.2) w.1) copied =
      some slots := by
  unfold newSlots? at made
  simp only at made
  split at made
  · cases made
  · rw [← Array.foldlM_toList] at made
    exact Option.bind_eq_some_iff.mp made

theorem size_newSlots? (made : m.newSlots? f arguments = some slots) (arity : f.arity = arguments.length)
    (bounds : ∀ c ∈ f.captures, 0 ≤ c.target ∧ c.target < pow2 31) : (slots.size : Int) = f.slotCount := by
  obtain ⟨copied, first, second⟩ := exists_writes made
  have room := f.le_slotCount
  have copies := Frame.size_of_foldlM_storeSlot? first fun c member => by
    obtain ⟨low, high⟩ := bounds c (Array.mem_toList_iff.mp member)
    have counted := Function.lt_slotCount (Array.mem_toList_iff.mp member) low high
    rw [Array.size_replicate]
    omega
  rw [Array.size_replicate] at copies
  have all := Frame.size_of_foldlM_storeSlot? second fun w member => by
    have inside := List.snd_lt_of_mem_zipIdx member
    omega
  omega

theorem getD_newSlots? (made : m.newSlots? f arguments = some slots) (n : Nat) :
    slots.getD n .null = if f.paramStart ≤ n ∧ n < f.paramStart + arguments.length
      then arguments.getD (n - f.paramStart) .null
      else ((f.captureOf? n).map m.captured).getD .null := by
  obtain ⟨copied, first, second⟩ := exists_writes made
  have blank : (Array.replicate f.slotCount.toNat Value.null).getD n .null = .null := by
    rw [Array.getD_eq_getD_getElem?, Array.getElem?_replicate]
    split <;> rfl
  rw [Frame.getD_of_foldlM_storeSlot? second, Frame.getD_of_foldlM_storeSlot? first, find?_zipIdx, blank]
  by_cases parameter : f.paramStart ≤ n ∧ n < f.paramStart + arguments.length
  · rw [if_pos parameter, if_pos parameter.1, List.getD_eq_getElem?_getD,
      List.getElem?_eq_getElem (by omega)]
    rfl
  · rw [if_neg parameter]
    split
    · rw [List.getElem?_eq_none (by omega)]
      rfl
    · rfl

/-! ## Calls that begin an activation -/

theorem activate_begun {routine : Routine} (done : m.activate s routine arguments = .done m') :
    ∃ called, m'.frames = m.frames.push called ∧ called.stackStart = m.stack.height ∧
      m.newSlots? routine.function arguments = some called.slots := by
  unfold activate at done
  split at done
  · cases done
  · split at done
    · rename_i entered
      cases done
      rw [enter?_eq, Option.bind_eq_some_iff] at entered
      obtain ⟨chunk, _, entered⟩ := entered
      obtain ⟨slots, made, rfl⟩ := Option.map_eq_some_iff.mp entered
      exact ⟨_, rfl, rfl, made⟩
    · cases done

theorem callFunction_begun {routine : Routine} (done : m.callFunction s routine arguments = .done m')
    (higher : m.frames.height < m'.frames.height) :
    ∃ called, m'.frames = m.frames.push called ∧ called.stackStart = m.stack.height ∧
      m.newSlots? routine.function arguments = some called.slots := by
  unfold callFunction at done
  split at done
  · exact activate_begun done
  · unfold consult at done
    simp only at done
    split at done
    · rename_i consulted
      obtain ⟨_, rfl⟩ := Prod.mk.inj consulted
      cases done
      exact absurd higher (Nat.lt_irrefl _)
    · rename_i consulted
      obtain ⟨_, rfl⟩ := Prod.mk.inj consulted
      obtain ⟨called, frames, start, made⟩ := activate_begun done
      exact ⟨called, frames, start, made⟩

/-- Only a call makes the activations more. -/
theorem Executes.exists_pushed (executes : m.Executes s frame i m')
    (higher : m.frames.height < m'.frames.height) :
    ∃ called, m'.frames = (m.fetched frame i).frames.push called := by
  have height : (m.fetched frame i).frames.height = m.frames.height := Stack.height_modifyTop _
  cases executes.completes with
  | calls _ change => exact ⟨_, change.frames⟩
  | works _ change | leaves _ change =>
      obtain ⟨_, _, frames⟩ := change.frames
      rw [frames, Stack.height_modifyTop] at higher
      omega
  | enters _ change =>
      rw [change.frames] at higher
      omega
  | returns _ change =>
      rw [change.frames, Stack.height_drop] at higher
      omega

/-- The slots of an activation that a call pushes are made from what the callers hold at the call. -/
theorem Executes.newSlots?_eq (executes : m.Executes s frame i m')
    (pushed : m'.frames = (m.fetched frame i).frames.push called)
    (callee : m.stack.top? = some (.function index))
    (listed : s.loaded.program.function? index = some (some f)) (arity : f.arity = i.operand.toNat) :
    called.stackStart = m.stack.height - (i.operand.toNat + 1) ∧
      m.newSlots? f (m.argumentsOf i) = some called.slots := by
  have call := (executes.activates pushed).1
  have callee' : (m.fetched frame i).stack.top? = some (.function index) := callee
  have done := executes.done
  rw [call] at done
  unfold execute Machine.call at done
  simp only [callee', listed, arity, ne_eq, not_true_eq_false, if_false] at done
  have higher : (m.fetched frame i).frames.height < m'.frames.height := by
    rw [pushed]
    exact Nat.lt_succ_self _
  obtain ⟨called', frames, start, made⟩ := callFunction_begun done higher
  obtain ⟨rfl, _⟩ := List.cons.inj (congrArg Stack.items (frames.symm.trans pushed))
  have captured_ : ((m.fetched frame i).drop (i.operand.toNat + 1)).captured = m.captured :=
    funext (captured_fetched m frame i)
  refine ⟨start, ?_⟩
  rw [← made]
  unfold newSlots?
  rw [captured_]
  rfl

/-- The argument of a call at a position, by its place on the stack. -/
theorem getElem?_argumentsOf (m : Machine) (enough : i.operand.toNat + 1 ≤ m.stack.height) {n : Nat}
    (inside : n < i.operand.toNat) :
    (m.argumentsOf i)[n]? = m.stack.get? (m.stack.height - (i.operand.toNat + 1) + n) := by
  have height := m.stack.height_eq
  unfold argumentsOf Stack.latest
  rw [Stack.items_drop, List.getElem?_reverse (by simp; omega), List.getElem?_take_of_lt (by simp; omega),
    List.getElem?_drop, Stack.get?, if_pos (by omega)]
  congr 1
  simp only [List.length_take, List.length_drop]
  omega

/-- `called` is an activation of `f` as a call with `count` arguments makes it on `m`. -/
structure IsCall (m : Machine) (f : Function) (count : Nat) (called : Frame) : Prop where
  size : (called.slots.size : Int) = f.slotCount
  stackStart : called.stackStart + (count + 1) = m.stack.height
  /-- Parameters hold the arguments, whose places on the stack follow each other. -/
  parameter : ∀ n < count, ∃ v, called.slots[f.paramStart + n]? = some v ∧
    m.stack.get? (called.stackStart + n) = some v
  /-- Other slots hold what the last capture found in the callers, the innermost of which is at depth zero,
  or null where it found nothing or there is no capture. -/
  other : ∀ slot < called.slots.size, ¬ (f.paramStart ≤ slot ∧ slot < f.paramStart + count) →
    called.slots[slot]? = some (((f.captureOf? slot).bind fun c => m.below? c.depth c.source).getD .null)

theorem isCall_of_newSlots? (enough : i.operand.toNat + 1 ≤ m.stack.height)
    (start : called.stackStart = m.stack.height - (i.operand.toNat + 1))
    (made : m.newSlots? f (m.argumentsOf i) = some called.slots) (arity : f.arity = i.operand.toNat)
    (bounds : ∀ c ∈ f.captures, 0 ≤ c.target ∧ c.target < pow2 31) : m.IsCall f i.operand.toNat called := by
  have count : (m.argumentsOf i).length = i.operand.toNat := by
    have height := m.stack.height_eq
    simp only [argumentsOf, Stack.latest, Stack.items_drop, List.length_reverse, List.length_take,
      List.length_drop]
    omega
  have size := size_newSlots? made (by rw [count, arity]) bounds
  have room := f.le_slotCount
  have read (slot : Nat) (inside : slot < called.slots.size) :
      called.slots[slot]? = some (called.slots.getD slot .null) := by
    rw [Array.getD_eq_getD_getElem?, Array.getElem?_eq_getElem inside]
    rfl
  refine ⟨size, by omega, fun n inside => ?_, fun slot inside outside => ?_⟩
  · refine ⟨_, read _ (by omega), ?_⟩
    rw [getD_newSlots? made, if_pos (by omega), Nat.add_sub_cancel_left, start,
      ← getElem?_argumentsOf m enough inside, List.getD_eq_getElem?_getD,
      List.getElem?_eq_getElem (by omega)]
    rfl
  · rw [read slot inside, getD_newSlots? made, if_neg (by omega)]
    cases f.captureOf? slot with
    | none => rfl
    | some c => exact congrArg some (captured_eq_below? m c)

/-- A call that pushes an activation of a function pushes it on the activations that were there, the caller
past its call, with as many slots as the function counts, filled from the stack and the callers. -/
theorem call_builds_frame (executes : m.Executes s frame i m')
    (higher : m.frames.height < m'.frames.height) (callee : m.stack.top? = some (.function index))
    (listed : s.loaded.program.function? index = some (some f))
    (bounds : ∀ c ∈ f.captures, 0 ≤ c.target ∧ c.target < pow2 31) :
    i.op = .call ∧ f.arity = i.operand.toNat ∧
      ∃ called, m'.frames = (m.fetched frame i).frames.push called ∧
        called.routine = some ⟨index.toNat, f⟩ ∧ m.IsCall f i.operand.toNat called := by
  obtain ⟨called, pushed⟩ := executes.exists_pushed higher
  have call := (executes.activates pushed).1
  obtain ⟨index', f', callee', listed', arity, routine, _⟩ := executes.begins pushed
  cases callee.symm.trans callee'
  cases listed.symm.trans listed'
  have enough : i.operand.toNat + 1 ≤ m.stack.height := by
    have enough := executes.enough
    rwa [call] at enough
  obtain ⟨start, made⟩ := executes.newSlots?_eq pushed callee listed arity
  exact ⟨call, arity, called, pushed, routine, isCall_of_newSlots? enough start made arity bounds⟩

end Machine

/-! The main chunk has a local and calls a function with a truth value. Of the captures of the function one
reads the local, one reads it into the slot of the parameter, and one asks for an activation that does not
exist and writes beyond the parameter. -/

namespace Overlay

def main : Chunk := { Chunk.empty with code := some #[0x50, 1] }

def function : Function where
  name := [0x66]
  arity := 1
  captures := #[⟨[0x78], 0, 0, 0⟩, ⟨[0x78], 0, 0, 3⟩, ⟨[0x79], 7, 0, 5⟩]
  chunk := some Chunk.empty

def setup : Setup where
  config := {}
  natives := #[]
  loaded := ⟨0, ⟨some main, #[some function]⟩⟩

def caller : Frame := { Frame.root main with slots := #[.string [0x61]] }

def calling : Machine :=
  { Machine.new { heap := {}, files := .empty [] } with
    stack := .ofList [.function 0, .bool true]
    frames := .ofList [caller] }

def entered : Machine :=
  ((calling.fetched caller ⟨.call, 1⟩).drop 2).begun ⟨0, function⟩ Chunk.empty
    #[.string [0x61], .null, .null, .bool true, .null, .null] [.bool true]

end Overlay

namespace Machine

theorem call_builds_frame_of_overlay :
    Overlay.calling.Executes Overlay.setup Overlay.caller ⟨.call, 1⟩ Overlay.entered ∧
    ∃ called, Overlay.entered.frames.top? = some called ∧ called.slots.size = 6 ∧
      called.slots[0]? = some (.string [0x61]) ∧ called.slots[3]? = some (.bool true) ∧
      called.slots[5]? = some .null := by
  have executes : Overlay.calling.Executes Overlay.setup Overlay.caller ⟨.call, 1⟩ Overlay.entered :=
    ⟨⟨rfl, by decide, rfl⟩, by decide, rfl⟩
  have callee : Overlay.calling.stack.top? = some (.function 0) := rfl
  have listed : Overlay.setup.loaded.program.function? 0 = some (some Overlay.function) := rfl
  obtain ⟨_, _, called, pushed, _, isCall⟩ :=
    call_builds_frame executes (by decide) callee listed (by decide)
  have size : called.slots.size = 6 := Int.ofNat_inj.mp isCall.size
  have start : called.stackStart = 0 := Nat.add_right_cancel isCall.stackStart
  obtain ⟨v, parameter, argument⟩ := isCall.parameter 0 (by decide)
  rw [start] at argument
  cases argument
  refine ⟨executes, called, by rw [pushed]; rfl, size, ?_, parameter, ?_⟩
  · exact isCall.other 0 (by omega) (by decide)
  · exact isCall.other 5 (by omega) (by decide)

end Machine

end TableMachine
