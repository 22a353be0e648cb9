import TableMachine.Proofs.Instruction
import TableMachine.Proofs.Loading
import TableMachine.Proofs.Natives
import TableMachine.Proofs.Slots

/-! # Instructions on good values

A value is good when the container it refers to exists. Here it is shown that an instruction whose
operands are on the stack does not break, and leaves good values where it found such. Breaking means to
need a part of the program that is missing, or a slot that cannot exist; so this asks of the program that
it lacks nothing and names no slots beyond reach, and of its natives that they report good values.
-/

namespace TableMachine

/-! ## Programs -/

/-- The chunk is the main one of the program or belongs to one of its functions. -/
def Program.HasChunk (p : Program) (chunk : Chunk) : Prop :=
  p.main = some chunk ∨ ∃ f, some f ∈ p.functions ∧ f.chunk = some chunk

theorem Program.mem_of_function? {p : Program} {index : Int} {entry : Option Function}
    (found : p.function? index = some entry) : entry ∈ p.functions := by
  unfold Program.function? at found
  split at found
  · cases found
  · exact Array.mem_of_getElem? found

/-- What a machine relies on in a program and its natives. -/
structure Setup.Safe (s : Setup) : Prop where
  /-- No function is missing or without a chunk, and captures are few. -/
  functions : ∀ entry ∈ s.loaded.program.functions, ∃ f chunk, entry = some f ∧
    f.chunk = some chunk ∧ f.captures.size ≤ Wire.maxEntries
  captures : ∀ f, some f ∈ s.loaded.program.functions → ∀ c ∈ f.captures,
    0 ≤ c.target ∧ c.target < pow2 31
  clauses : ∀ chunk, s.loaded.program.HasChunk chunk → ∀ region ∈ chunk.regions.entries,
    ∀ c ∈ region.clauses, noIndex ≤ c.slot ∧ c.slot < pow2 31
  natives : ∀ native ∈ s.natives, native.Sound

/-! ## Machines whose values are good -/

/-- The slots and the arguments of an activation are good. -/
structure Frame.Good (heap : Heap) (f : Frame) : Prop where
  slots : ∀ v ∈ f.slots, heap.Has v
  arguments : ∀ given, f.arguments = some given → ∀ v ∈ given, heap.Has v

/-- A slot that does not exist reads as null. -/
theorem Frame.Good.local_has {heap : Heap} {f : Frame} (good : f.Good heap) (slot : Int) :
    heap.Has (f.local_ slot) := by
  unfold Frame.local_
  split
  · trivial
  · rw [Array.getD_eq_getD_getElem?]
    cases found : f.slots[slot.toNat]? with
    | none => trivial
    | some v => exact good.slots v (Array.mem_of_getElem? found)

namespace Machine

/-- What outlives a run is good: globals, remembered results and what the heap holds. -/
structure WellFormed (m : Machine) : Prop where
  closed : m.heap.Closed
  globals : ∀ v ∈ m.globals, m.heap.Has v
  memos : ∀ entry ∈ m.memos, ∀ result ∈ entry.2.results, m.heap.Has result.2

/-- All values that the machine holds are good. -/
structure Sound (m : Machine) : Prop extends m.WellFormed where
  stack : ∀ v ∈ m.stack.items, m.heap.Has v
  frames : ∀ f ∈ m.frames.items, f.Good m.heap

end Machine

/-- The instruction did not break, and left good values. -/
def Effect.Sound : Effect → Prop
  | .done m => m.Sound
  | .raised _ m => m.Sound
  | .finished result m => m.Sound ∧ m.heap.Has result
  | .broken => False

namespace Machine

variable {s : Setup} {m m' : Machine} {v : Value} {frame : Frame} {op : Opcode} {operand : Int}

/-! ## Changes that keep values good -/

namespace Sound

theorem push (sound : m.Sound) (has : m.heap.Has v) : (m.push v).Sound :=
  ⟨⟨sound.closed, sound.globals, sound.memos⟩, List.forall_mem_cons.mpr ⟨has, sound.stack⟩, sound.frames⟩

theorem drop (sound : m.Sound) (count : Nat) : (m.drop count).Sound :=
  ⟨⟨sound.closed, sound.globals, sound.memos⟩,
    fun v member => sound.stack v (List.mem_of_mem_drop member), sound.frames⟩

/-- A change of activations and handlers. -/
theorem withFrames (sound : m.Sound) {frames : Stack Frame} (good : ∀ f ∈ frames.items, f.Good m.heap)
    (handlers : Stack Handler) (activations regionsEntered : Nat) :
    ({ m with frames := frames, handlers := handlers, activations := activations,
              regionsEntered := regionsEntered } : Machine).Sound :=
  ⟨⟨sound.closed, sound.globals, sound.memos⟩, sound.stack, good⟩

theorem modifyFrame (sound : m.Sound) {change : Frame → Frame}
    (good : ∀ f : Frame, f.Good m.heap → (change f).Good m.heap) : (m.modifyFrame change).Sound := by
  refine sound.withFrames ?_ m.handlers m.activations m.regionsEntered
  intro f member
  rcases Stack.mem_modifyTop member with old | ⟨g, old, rfl⟩
  · exact sound.frames f old
  · exact good g (sound.frames g old)

theorem jumpBy (sound : m.Sound) (distance : Int) : (m.jumpBy distance).Sound :=
  sound.modifyFrame fun _ good => ⟨good.slots, good.arguments⟩

theorem jumpTo (sound : m.Sound) (offset : Int) : (m.jumpTo offset).Sound :=
  sound.modifyFrame fun _ good => ⟨good.slots, good.arguments⟩

theorem withHost (sound : m.Sound) {host : Host} (extends_ : m.heap.Extends host.heap) :
    ({ m with host := host } : Machine).Sound := by
  refine ⟨⟨extends_.closed, ?_, ?_⟩, ?_, ?_⟩
  · exact fun v member => extends_.has (sound.globals v member)
  · exact fun entry member result stored => extends_.has (sound.memos entry member result stored)
  · exact fun v member => extends_.has (sound.stack v member)
  · intro f member
    have good := sound.frames f member
    exact ⟨fun v stored => extends_.has (good.slots v stored),
      fun given kept v stored => extends_.has (good.arguments given kept v stored)⟩

theorem withHeap (sound : m.Sound) {heap : Heap} (extends_ : m.heap.Extends heap) :
    (m.withHeap heap).Sound := by
  show ({ m with host := { m.host with heap := heap } } : Machine).Sound
  exact sound.withHost extends_

theorem setMemo (sound : m.Sound) {memo : Memo} (live : ∀ result ∈ memo.results, m.heap.Has result.2)
    (key : MemoKey) : (m.setMemo key memo).Sound := by
  refine ⟨⟨sound.closed, sound.globals, ?_⟩, sound.stack, sound.frames⟩
  refine List.forall_mem_cons.mpr ⟨live, ?_⟩
  exact fun entry member => sound.memos entry (List.mem_filter.mp member).1

theorem memo (sound : m.Sound) (key : MemoKey) :
    ∀ result ∈ ((m.memo? key).getD {}).results, m.heap.Has result.2 := by
  unfold memo?
  cases found : m.memos.lookup key with
  | none => simp
  | some memo =>
      obtain ⟨before, after, split, _⟩ := List.lookup_eq_some_iff.mp found
      exact sound.memos (key, memo) (by rw [split]; simp)

theorem withGlobals (sound : m.Sound) {globals : Array Value} (live : ∀ v ∈ globals, m.heap.Has v) :
    ({ m with globals := globals } : Machine).Sound :=
  ⟨⟨sound.closed, live, sound.memos⟩, sound.stack, sound.frames⟩

/-- A global slot that an operand can name is stored. -/
theorem storeGlobal (sound : m.Sound) {slot : Int} (low : 0 ≤ slot) (high : slot < maxValues)
    (has : m.heap.Has v) : ∃ m', m.storeGlobal? slot v = some m' ∧ m'.Sound := by
  obtain ⟨globals, stored⟩ := Frame.exists_storeSlot? m.globals v low high
  have live : ∀ x ∈ globals, m.heap.Has x := by
    intro x member
    rcases Frame.mem_of_storeSlot? stored member with old | rfl | rfl
    · exact sound.globals x old
    · trivial
    · exact has
  unfold storeGlobal?
  simp only [stored, Option.map_some]
  refine ⟨_, rfl, ?_⟩
  split
  · have extends_ := Heap.nameTable_extends sound.closed
    exact (sound.withHeap (extends_ _ _)).withGlobals fun x member => (extends_ _ _).has (live x member)
  · exact sound.withGlobals live

end Sound

/-! ## Operands -/

theorem withOne_sound {f : Value → Machine → Effect} (sound : m.Sound) (enough : 1 ≤ m.stack.height)
    (next : ∀ v, m.heap.Has v → (f v (m.drop 1)).Sound) : (m.withOne f).Sound := by
  unfold withOne
  split
  · rename_i v rest items
    exact next v (sound.stack v (by rw [items]; exact List.mem_cons_self))
  · rename_i items
    rw [m.stack.height_eq, items] at enough
    cases enough

theorem withTwo_sound {f : Value → Value → Machine → Effect} (sound : m.Sound)
    (enough : 2 ≤ m.stack.height)
    (next : ∀ a b, m.heap.Has a → m.heap.Has b → (f a b (m.drop 2)).Sound) : (m.withTwo f).Sound := by
  unfold withTwo
  split
  · rename_i b a rest items
    exact next a b (sound.stack a (by rw [items]; simp)) (sound.stack b (by rw [items]; simp))
  · rename_i few
    rw [m.stack.height_eq] at enough
    cases items : m.stack.items with
    | nil =>
        rw [items] at enough
        cases enough
    | cons b rest =>
        cases rest with
        | nil =>
            rw [items] at enough
            simp at enough
        | cons a rest => exact absurd items (few b a rest)

theorem yield_sound (sound : m.Sound) {r : Except Cause Value} (good : ∀ v, r = .ok v → m.heap.Has v) :
    (m.yield_ r).Sound := by
  cases r with
  | ok v => exact sound.push (good v rfl)
  | error cause => exact sound

theorem yieldOn_sound (sound : m.Sound) {r : Except Cause (Value × Heap)}
    (good : ∀ v heap, r = .ok (v, heap) → m.heap.Extends heap ∧ heap.Has v) : (m.yieldOn r).Sound := by
  cases r with
  | ok result =>
      obtain ⟨v, heap⟩ := result
      obtain ⟨extends_, has⟩ := good v heap rfl
      exact (sound.withHeap extends_).push has
  | error cause => exact sound

/-! ## Calls and returns -/

theorem callNative_sound (safe : s.Safe) (sound : m.Sound) (index : Int) {arguments : List Value}
    (live : ∀ v ∈ arguments, m.heap.Has v) : (m.callNative s index arguments).Sound := by
  unfold callNative
  split
  · exact sound
  · rename_i native found
    split at found
    · cases found
    · have good :=
        safe.natives native (Array.mem_of_getElem? found) m.host.reset arguments sound.closed live
      have sound' : ({ m with host := (native.run m.host.reset arguments).host } : Machine).declare.Sound := by
        have next := sound.withHost good.extends_
        exact ⟨⟨next.closed, next.globals, next.memos⟩, next.stack, next.frames⟩
      simp only
      split
      · exact ⟨⟨sound'.closed, sound'.globals, sound'.memos⟩, sound'.stack, sound'.frames⟩
      · exact sound'.push good.value

theorem captured_has (sound : m.Sound) (c : Capture) : m.heap.Has (m.captured c) := by
  unfold captured
  split
  · trivial
  · split
    · rename_i f found
      exact (sound.frames f (List.mem_of_getElem? found)).local_has c.source
    · trivial

private theorem foldl_max_le {captures : List Capture} {base bound : Int} (low : base ≤ bound)
    (each : ∀ c ∈ captures, Int.bmod (c.target + 1) (pow2 64) ≤ bound) :
    captures.foldl (fun n c => max n (Int.bmod (c.target + 1) (pow2 64))) base ≤ bound := by
  induction captures generalizing base with
  | nil => exact low
  | cons c rest ih =>
      obtain ⟨first, others⟩ := List.forall_mem_cons.mp each
      exact ih (Int.max_le.mpr ⟨low, first⟩) others

/-- As many slots as a new activation needs can be set aside. -/
theorem slotCount_le (safe : s.Safe) {f : Function} (listed : some f ∈ s.loaded.program.functions)
    (few : f.arity < pow2 16) : f.slotCount ≤ maxValues := by
  obtain ⟨g, chunk, same, _, size⟩ := safe.functions _ listed
  cases same
  unfold Function.slotCount
  rw [← Array.foldl_toList]
  refine foldl_max_le ?_ fun c member => ?_
  · have room : Wire.maxEntries + pow2 16 ≤ maxValues := by decide
    omega
  · obtain ⟨low, high⟩ := safe.captures _ listed c (Array.mem_toList_iff.mp member)
    have room : (pow2 31 : Int) < maxValues := by decide
    have narrow : (pow2 31 : Int) < (pow2 64 + 1) / 2 := by decide
    rw [Int.bmod_eq_of_le (by omega) (by omega)]
    omega

/-- The slots of a new activation can exist. -/
theorem exists_newSlots? (safe : s.Safe) (sound : m.Sound) {f : Function}
    (listed : some f ∈ s.loaded.program.functions) {arguments : List Value}
    (arity : f.arity = arguments.length) (few : arguments.length < pow2 16)
    (live : ∀ v ∈ arguments, m.heap.Has v) :
    ∃ slots, m.newSlots? f arguments = some slots ∧ ∀ v ∈ slots, m.heap.Has v := by
  obtain ⟨g, chunk, same, _, size⟩ := safe.functions _ listed
  cases same
  have room : ¬ (maxValues : Int) < f.slotCount := Int.not_lt.mpr (slotCount_le safe listed (by omega))
  obtain ⟨copied, first, copies⟩ := Frame.exists_foldlM_storeSlot? (·.target) m.captured
    f.captures.toList (Array.replicate f.slotCount.toNat Value.null) (by
      intro c member
      obtain ⟨low, high⟩ := safe.captures f listed c (Array.mem_toList_iff.mp member)
      exact ⟨low, Int.lt_trans high (by decide)⟩)
  obtain ⟨slots, second, origin⟩ := Frame.exists_foldlM_storeSlot?
    (fun w : Value × Nat => f.paramStart + w.2) (·.1) arguments.zipIdx copied (by
      intro w member
      have inside := List.snd_lt_of_mem_zipIdx member
      have room : Wire.maxEntries + pow2 16 ≤ maxValues := by decide
      unfold Function.paramStart
      omega)
  refine ⟨slots, ?_, fun v member => ?_⟩
  · unfold newSlots?
    simp only [if_neg room]
    rw [← Array.foldlM_toList, first]
    exact second
  · rcases origin v member with copy | rfl | ⟨w, given, rfl⟩
    · rcases copies v copy with blank | rfl | ⟨c, _, rfl⟩
      · rw [Array.eq_of_mem_replicate blank]
        trivial
      · trivial
      · exact captured_has sound c
    · trivial
    · exact live w.1 (List.fst_mem_of_mem_zipIdx given)

theorem activate_sound (safe : s.Safe) (sound : m.Sound) {routine : Routine}
    (listed : some routine.function ∈ s.loaded.program.functions) {arguments : List Value}
    (arity : routine.function.arity = arguments.length) (few : arguments.length < pow2 16)
    (live : ∀ v ∈ arguments, m.heap.Has v) : (m.activate s routine arguments).Sound := by
  unfold activate
  split
  · exact sound
  · obtain ⟨f, chunk, same, present, _⟩ := safe.functions _ listed
    cases same
    obtain ⟨slots, made, good⟩ := exists_newSlots? safe sound listed arity few live
    unfold enter?
    simp only [present, made, Option.bind_eq_bind, Option.bind_some]
    refine sound.withFrames ?_ m.handlers _ m.regionsEntered
    refine List.forall_mem_cons.mpr ⟨⟨good, fun given kept => ?_⟩, sound.frames⟩
    simp only at kept
    split at kept
    · cases kept
      exact live
    · cases kept

theorem callFunction_sound (safe : s.Safe) (sound : m.Sound) {routine : Routine}
    (listed : some routine.function ∈ s.loaded.program.functions) {arguments : List Value}
    (arity : routine.function.arity = arguments.length) (few : arguments.length < pow2 16)
    (live : ∀ v ∈ arguments, m.heap.Has v) : (m.callFunction s routine arguments).Sound := by
  unfold callFunction
  split
  · exact activate_sound safe sound listed arity few live
  · rename_i text _
    have remembered := sound.memo ⟨s.loaded.unit, routine.position⟩
    have counted : (m.consult ⟨s.loaded.unit, routine.position⟩ text).2.Sound := by
      refine sound.setMemo ?_ _
      unfold Memo.counted
      split
      · exact remembered
      · exact remembered
    split
    · rename_i v m' consulted
      obtain ⟨found, rfl⟩ := Prod.mk.inj consulted
      obtain ⟨before, after, split, _⟩ := List.lookup_eq_some_iff.mp found
      exact counted.push (remembered (text, v) (by rw [split]; simp))
    · rename_i m' consulted
      obtain ⟨_, rfl⟩ := Prod.mk.inj consulted
      exact activate_sound safe counted listed arity few live

theorem call_sound (safe : s.Safe) (sound : m.Sound) {count : Nat} (enough : count + 1 ≤ m.stack.height)
    (few : count < pow2 16) : (m.call s count).Sound := by
  obtain ⟨callee, top⟩ := Stack.exists_top? (Nat.lt_of_lt_of_le (Nat.succ_pos _) enough)
  have live : ∀ v ∈ (m.stack.drop 1).latest count, m.heap.Has v := by
    intro v member
    have taken := List.mem_of_mem_take (List.mem_reverse.mp member)
    exact sound.stack v (List.mem_of_mem_drop taken)
  have length : ((m.stack.drop 1).latest count).length = count := by
    rw [m.stack.height_eq] at enough
    simp only [Stack.latest, Stack.items_drop, List.length_reverse, List.length_take, List.length_drop]
    omega
  have rest := sound.drop (count + 1)
  unfold call
  simp only [top]
  split
  · exact callNative_sound safe rest _ live
  · rename_i index
    split
    · exact rest
    · rename_i missing
      obtain ⟨f, chunk, present, _⟩ := safe.functions _ (Program.mem_of_function? missing)
      cases present
    · rename_i f found
      split
      · exact rest
      · rename_i arity
        refine callFunction_sound safe rest (Program.mem_of_function? found) ?_ ?_ live
        · rw [length]
          exact Decidable.not_not.mp arity
        · rw [length]
          exact few
  · exact rest

theorem remember_sound (sound : m.Sound) (has : m.heap.Has v) (f : Frame) :
    (m.remember s f v).Sound := by
  unfold remember
  split
  · split
    · exact sound
    · refine sound.setMemo ?_ _
      refine List.forall_mem_cons.mpr ⟨has, ?_⟩
      exact fun result member => sound.memo _ result (List.mem_filter.mp member).1
  · exact sound

theorem returnFrom_sound (sound : m.Sound) (inhabited : 0 < m.frames.height) (has : m.heap.Has v) :
    (m.returnFrom s v).Sound := by
  obtain ⟨frame, top⟩ := Stack.exists_top? inhabited
  have truncated := sound.drop (m.stack.height - frame.stackStart)
  have remembered : (({ m with stack := m.stack.truncate frame.stackStart } : Machine).remember s frame
      v).Sound := remember_sound truncated has frame
  obtain ⟨memos, same⟩ := remember_eq s { m with stack := m.stack.truncate frame.stackStart } frame v
  unfold returnFrom
  simp only [top]
  rw [same] at remembered ⊢
  have lower : ∀ f ∈ (m.frames.drop 1).items, f.Good m.heap := fun f member =>
    sound.frames f (List.mem_of_mem_drop member)
  have rest := remembered.withFrames lower
    (m.handlers.dropWhile fun h => m.frames.height - 1 ≤ h.frameIndex) m.activations m.regionsEntered
  split
  · exact ⟨rest, has⟩
  · exact rest.push has

/-! ## Instructions -/

theorem beginTry_sound (sound : m.Sound) (frame : Frame) (index : Int) :
    (m.beginTry frame index).Sound := by
  unfold beginTry
  split
  · exact sound
  · exact sound.withFrames sound.frames _ m.activations _

theorem endTry_sound (sound : m.Sound) : m.endTry.Sound := by
  unfold endTry
  split
  · exact sound
  · have rest := sound.withFrames sound.frames (m.handlers.drop 1) m.activations m.regionsEntered
    simp only
    split
    · exact rest.jumpTo _
    · exact rest

theorem storeLocal_sound (sound : m.Sound) (good : frame.Good m.heap) (low : 0 ≤ operand)
    (high : operand < maxValues) (has : m.heap.Has v) :
    Effect.Sound (match frame.setLocal? operand v with
      | some frame => .done (m.modifyFrame fun f => { f with slots := frame.slots })
      | none => .broken) := by
  obtain ⟨slots, stored⟩ := Frame.exists_storeSlot? frame.slots v low high
  unfold Frame.setLocal?
  simp only [stored, Option.map_some]
  refine sound.modifyFrame fun f kept => ⟨fun x member => ?_, kept.arguments⟩
  rcases Frame.mem_of_storeSlot? stored member with old | rfl | rfl
  · exact good.slots x old
  · trivial
  · exact has

theorem constant_has (k : Constant) (heap : Heap) : heap.Has k.value := by
  unfold Constant.value
  split
  · rename_i literal _
    cases literal <;> trivial
  · trivial

theorem binary_sound (sound : m.Sound) (enough : 2 ≤ m.stack.height) (op : Opcode) :
    (m.withTwo fun a b m => m.yield_ (Operation.binary m.heap op a b)).Sound :=
  withTwo_sound sound enough fun _ _ _ _ =>
    yield_sound (sound.drop 2) fun _ done => Operation.binary_has done _

theorem jumpIfFalse_sound (sound : m.Sound) (enough : 1 ≤ m.stack.height) (distance : Int) :
    (m.withOne fun v m => .done (if v.truthy m.heap then m else m.jumpBy distance)).Sound := by
  refine withOne_sound sound enough fun v _ => ?_
  show Machine.Sound (if _ then _ else _)
  split
  · exact sound.drop 1
  · exact (sound.drop 1).jumpBy distance

theorem makeArray_sound (sound : m.Sound) (count : Nat) :
    Effect.Sound (
      let elements := m.stack.latest count
      let m := m.drop count
      let (r, heap) := m.heap.newArray elements.toArray
      .done ((m.withHeap heap).push (.array r))) := by
  have live : ∀ v ∈ (m.stack.latest count).toArray, m.heap.Has v := by
    intro v member
    exact sound.stack v (List.mem_of_mem_take (List.mem_reverse.mp (List.mem_toArray.mp member)))
  exact ((sound.drop count).withHeap (Heap.newArray_extends sound.closed live)).push
    (Heap.newArray_has _ _)

theorem clone_sound (sound : m.Sound) (has : m.heap.Has v) :
    Effect.Sound (
      let (copy, heap) := m.heap.deepClone v
      .done ((m.withHeap heap).push copy)) :=
  (sound.withHeap (Heap.deepClone_extends sound.closed v)).push (Heap.deepClone_has_relocate has)

theorem return_sound (sound : m.Sound) (inhabited : 0 < m.frames.height) (frame : Frame) :
    Effect.Sound (if frame.stackStart < m.stack.height then m.withOne fun v m => m.returnFrom s v
      else m.returnFrom s .null) := by
  split
  · rename_i above
    exact withOne_sound sound (Nat.lt_of_le_of_lt (Nat.zero_le _) above) fun v has =>
      returnFrom_sound (sound.drop 1) inhabited has
  · exact returnFrom_sound sound inhabited trivial

/-- An instruction whose operands are on the stack does not break. -/
theorem execute_sound (safe : s.Safe) (sound : m.Sound) (good : frame.Good m.heap)
    (inhabited : 0 < m.frames.height) (enough : needed op operand ≤ m.stack.height)
    (bounds : op.isSigned = false → 0 ≤ operand ∧ operand < pow2 16) :
    (m.execute s frame op operand).Sound := by
  have room : (pow2 16 : Int) < maxValues := by decide
  cases op with
  | nop => exact sound
  | catch_ => exact sound
  | endCatch => exact sound
  | pop => exact withOne_sound sound enough fun _ _ => sound.drop 1
  | constant =>
      simp only [execute]
      split
      · exact sound.push (constant_has _ _)
      · exact sound
  | loadLocal => exact sound.push (good.local_has operand)
  | storeLocal =>
      obtain ⟨low, high⟩ := bounds rfl
      simp only [execute]
      exact withOne_sound sound enough fun v has =>
        storeLocal_sound (sound.drop 1) good low (Int.lt_trans high room) has
  | loadGlobal =>
      simp only [execute]
      split
      · rename_i v found
        exact sound.push (sound.globals v (Array.mem_of_getElem? found))
      · exact sound
  | storeGlobal =>
      obtain ⟨low, high⟩ := bounds rfl
      simp only [execute]
      refine withOne_sound sound enough fun v has => ?_
      obtain ⟨m', stored, good⟩ := (sound.drop 1).storeGlobal low (Int.lt_trans high room) has
      simp only [stored]
      exact good
  | negate =>
      simp only [execute]
      exact withOne_sound sound enough fun v _ =>
        yield_sound (sound.drop 1) fun _ done => Operation.negate_has done _
  | in_ =>
      simp only [execute]
      exact withTwo_sound sound enough fun _ _ _ _ =>
        yield_sound (sound.drop 2) fun _ done => Operation.member_has done _
  | not =>
      simp only [execute]
      exact withOne_sound sound enough fun _ _ => (sound.drop 1).push trivial
  | and =>
      simp only [execute]
      refine withTwo_sound sound enough fun a b hasA hasB => (sound.drop 2).push ?_
      split
      · exact hasB
      · exact hasA
  | or =>
      simp only [execute]
      refine withTwo_sound sound enough fun a b hasA hasB => (sound.drop 2).push ?_
      split
      · exact hasA
      · exact hasB
  | jump8 => exact sound.jumpBy operand
  | jump16 => exact sound.jumpBy operand
  | jump32 => exact sound.jumpBy operand
  | jumpIfFalse8 => exact jumpIfFalse_sound sound enough operand
  | jumpIfFalse16 => exact jumpIfFalse_sound sound enough operand
  | jumpIfFalse32 => exact jumpIfFalse_sound sound enough operand
  | call =>
      obtain ⟨low, high⟩ := bounds rfl
      exact call_sound safe sound enough (by omega)
  | return_ => exact return_sound sound inhabited frame
  | makeArray => exact makeArray_sound sound operand.toNat
  | arrayLength =>
      simp only [execute]
      exact withOne_sound sound enough fun v _ =>
        yield_sound (sound.drop 1) fun _ done => Operation.arrayLength_has done _
  | arrayElement =>
      simp only [execute]
      exact withTwo_sound sound enough fun _ _ has _ =>
        yieldOn_sound (sound.drop 2) fun _ _ done => Operation.element_extends done sound.closed has
  | clone =>
      simp only [execute]
      exact withOne_sound sound enough fun v has => clone_sound (sound.drop 1) has
  | beginTry => exact beginTry_sound sound frame operand
  | endTry => exact endTry_sound sound
  | throw =>
      simp only [execute]
      exact withOne_sound sound enough fun _ _ => sound.drop 1
  | popHandler => exact sound.withFrames sound.frames (m.handlers.drop 1) m.activations _
  | add => exact binary_sound sound enough _
  | sub => exact binary_sound sound enough _
  | mul => exact binary_sound sound enough _
  | div => exact binary_sound sound enough _
  | intDiv => exact binary_sound sound enough _
  | mod => exact binary_sound sound enough _
  | pow => exact binary_sound sound enough _
  | equal => exact binary_sound sound enough _
  | notEqual => exact binary_sound sound enough _
  | greater => exact binary_sound sound enough _
  | less => exact binary_sound sound enough _
  | greaterEqual => exact binary_sound sound enough _
  | lessEqual => exact binary_sound sound enough _

end Machine

end TableMachine
