import TableMachine.Proofs.Catching
import TableMachine.Proofs.GoodValues
import TableMachine.Proofs.Tables

/-! # Columns always have their headers

A program that runs with the built-in natives can pass columns around without limit: through variables, captures,
arguments and remembered results, and in and out of containers. Wherever a column is, it is named by a header of
its table, since it was when it was made, and tables never lose a header. So what was a column can be indexed and
measured at any later time. The argument goes instruction by instruction and is the same for all: nothing but
element access makes a column, and what a machine carries after an instruction it carried before or got from there.
-/

namespace TableMachine

/-- The columns that the activation carries have headers in `origin`. -/
structure Frame.Named (origin : Heap) (f : Frame) : Prop where
  slots : ∀ v ∈ f.slots, origin.Names v
  arguments : ∀ given, f.arguments = some given → ∀ v ∈ given, origin.Names v

theorem Frame.Named.local_ {origin : Heap} {f : Frame} (named : f.Named origin) (slot : Int) :
    origin.Names (f.local_ slot) := by
  unfold Frame.local_
  split
  · trivial
  · rw [Array.getD_eq_getD_getElem?]
    cases found : f.slots[slot.toNat]? with
    | none => trivial
    | some v => exact named.slots v (Array.mem_of_getElem? found)

theorem Frame.Named.setLocal? {origin : Heap} {f g : Frame} {slot : Int} {v : Value} (named : f.Named origin)
    (stored : f.setLocal? slot v = some g) (value : origin.Names v) : g.Named origin := by
  obtain ⟨slots, done, rfl⟩ := Option.map_eq_some_iff.mp stored
  refine ⟨fun x member => ?_, named.arguments⟩
  rcases Frame.mem_of_storeSlot? done member with old | rfl | rfl
  · exact named.slots x old
  · trivial
  · exact value

namespace Machine

/-- The heap has grown out of `origin`, and all columns that the machine carries have headers there. -/
structure Tabular (m : Machine) (origin : Heap) : Prop where
  heap : m.heap.Tabular origin
  stack : ∀ v ∈ m.stack.items, origin.Names v
  frames : ∀ f ∈ m.frames.items, f.Named origin
  globals : ∀ v ∈ m.globals, origin.Names v
  memos : ∀ entry ∈ m.memos, ∀ result ∈ entry.2.results, origin.Names result.2

end Machine

/-- So it is after the instruction, whose fault, if any, is not that of a missing column. -/
def Effect.Tabular (origin : Heap) : Effect → Prop
  | .done m => m.Tabular origin
  | .raised cause m => m.Tabular origin ∧ cause.SparesColumns
  | .finished result m => m.Tabular origin ∧ origin.Names result
  | .broken => True

namespace Machine

variable {s : Setup} {m m' m₀ : Machine} {origin : Heap} {v : Value} {frame : Frame} {op : Opcode}
  {operand : Int}

/-! ## Changes of a machine -/

namespace Tabular

theorem push (tabular : m.Tabular origin) (named : origin.Names v) : (m.push v).Tabular origin :=
  ⟨tabular.heap, List.forall_mem_cons.mpr ⟨named, tabular.stack⟩, tabular.frames, tabular.globals,
    tabular.memos⟩

theorem drop (tabular : m.Tabular origin) (count : Nat) : (m.drop count).Tabular origin :=
  ⟨tabular.heap, fun v member => tabular.stack v (List.mem_of_mem_drop member), tabular.frames,
    tabular.globals, tabular.memos⟩

theorem withFrames (tabular : m.Tabular origin) {frames : Stack Frame}
    (named : ∀ f ∈ frames.items, f.Named origin) (handlers : Stack Handler)
    (activations regionsEntered : Nat) :
    ({ m with frames := frames, handlers := handlers, activations := activations,
              regionsEntered := regionsEntered } : Machine).Tabular origin :=
  ⟨tabular.heap, tabular.stack, named, tabular.globals, tabular.memos⟩

theorem modifyFrame (tabular : m.Tabular origin) {change : Frame → Frame}
    (named : ∀ f : Frame, f.Named origin → (change f).Named origin) :
    (m.modifyFrame change).Tabular origin := by
  refine tabular.withFrames ?_ m.handlers m.activations m.regionsEntered
  intro f member
  rcases Stack.mem_modifyTop member with old | ⟨g, old, rfl⟩
  · exact tabular.frames f old
  · exact named g (tabular.frames g old)

theorem jumpBy (tabular : m.Tabular origin) (distance : Int) : (m.jumpBy distance).Tabular origin :=
  tabular.modifyFrame fun _ named => ⟨named.slots, named.arguments⟩

theorem withHost (tabular : m.Tabular origin) {host : Host} (heap : host.heap.Tabular origin) :
    ({ m with host := host } : Machine).Tabular origin :=
  ⟨heap, tabular.stack, tabular.frames, tabular.globals, tabular.memos⟩

theorem withHeap (tabular : m.Tabular origin) {heap : Heap} (grown : heap.Tabular origin) :
    (m.withHeap heap).Tabular origin :=
  ⟨grown, tabular.stack, tabular.frames, tabular.globals, tabular.memos⟩

theorem setMemo (tabular : m.Tabular origin) {memo : Memo}
    (named : ∀ result ∈ memo.results, origin.Names result.2) (key : MemoKey) :
    (m.setMemo key memo).Tabular origin := by
  refine ⟨tabular.heap, tabular.stack, tabular.frames, tabular.globals, ?_⟩
  refine List.forall_mem_cons.mpr ⟨named, fun entry member => ?_⟩
  exact tabular.memos entry (List.mem_filter.mp member).1

theorem memo (tabular : m.Tabular origin) (key : MemoKey) :
    ∀ result ∈ ((m.memo? key).getD {}).results, origin.Names result.2 := by
  unfold memo?
  cases found : m.memos.lookup key with
  | none => simp
  | some memo =>
      obtain ⟨before, after, split, _⟩ := List.lookup_eq_some_iff.mp found
      exact tabular.memos (key, memo) (by rw [split]; simp)

theorem storeGlobal? (tabular : m.Tabular origin) {slot : Int} (named : origin.Names v)
    (stored : m.storeGlobal? slot v = some m') : m'.Tabular origin := by
  unfold Machine.storeGlobal? at stored
  obtain ⟨globals, done, rfl⟩ := Option.map_eq_some_iff.mp stored
  have kept : ∀ x ∈ globals, origin.Names x := by
    intro x member
    rcases Frame.mem_of_storeSlot? done member with old | rfl | rfl
    · exact tabular.globals x old
    · trivial
    · exact named
  split
  · exact ⟨tabular.heap.nameTable _ _, tabular.stack, tabular.frames, kept, tabular.memos⟩
  · exact ⟨tabular.heap, tabular.stack, tabular.frames, kept, tabular.memos⟩

/-- The machine as the next instruction finds it. -/
theorem settled (tabular : m.Tabular origin) : m.Tabular m.heap := by
  have names : ∀ {v}, origin.Names v → m.heap.Names v := tabular.heap.grows.names
  exact ⟨tabular.heap.settled, fun v member => names (tabular.stack v member),
    fun f member => ⟨fun v stored => names ((tabular.frames f member).slots v stored),
      fun given kept v stored => names ((tabular.frames f member).arguments given kept v stored)⟩,
    fun v member => names (tabular.globals v member),
    fun entry member result stored => names (tabular.memos entry member result stored)⟩

end Tabular

/-! ## Operands -/

theorem withOne_tabular {f : Value → Machine → Effect} (tabular : m.Tabular origin)
    (next : ∀ v, origin.Names v → (f v (m.drop 1)).Tabular origin) : (m.withOne f).Tabular origin := by
  unfold withOne
  split
  · rename_i v rest items
    exact next v (tabular.stack v (by rw [items]; exact List.mem_cons_self))
  · trivial

theorem withTwo_tabular {f : Value → Value → Machine → Effect} (tabular : m.Tabular origin)
    (next : ∀ a b, origin.Names a → origin.Names b → (f a b (m.drop 2)).Tabular origin) :
    (m.withTwo f).Tabular origin := by
  unfold withTwo
  split
  · rename_i b a rest items
    exact next a b (tabular.stack a (by rw [items]; simp)) (tabular.stack b (by rw [items]; simp))
  · trivial

theorem yield_tabular (tabular : m.Tabular origin) {r : Except Cause Value}
    (plain : ∀ v, r = .ok v → ({} : Heap).Has v) (spares : ∀ cause, r = .error cause → cause.SparesColumns) :
    (m.yield_ r).Tabular origin := by
  cases r with
  | ok v => exact tabular.push (Heap.names_of_has (plain v rfl) origin)
  | error cause => exact ⟨tabular, spares cause rfl⟩

theorem yieldOn_tabular (tabular : m.Tabular origin) {r : Except Cause (Value × Heap)}
    (answers : Operation.Answers origin r) : (m.yieldOn r).Tabular origin := by
  cases r with
  | ok answer => exact (tabular.withHeap answers.1).push answers.2
  | error cause => exact ⟨tabular, answers⟩

/-! ## Calls and returns -/

theorem callNative_tabular (natives : ∀ native ∈ s.natives, native.Tabular) (tabular : m.Tabular m.heap)
    (index : Int) {arguments : List Value} (named : ∀ v ∈ arguments, m.heap.Names v) :
    (m.callNative s index arguments).Tabular m.heap := by
  unfold callNative
  split
  · exact ⟨tabular, trivial⟩
  · rename_i native found
    split at found
    · cases found
    · have report :=
        natives native (Array.mem_of_getElem? found) m.host.reset arguments tabular.heap rfl named
      have after : ({ m with host := (native.run m.host.reset arguments).host } : Machine).declare.Tabular
          m.heap := by
        have next := tabular.withHost report.heap
        exact ⟨next.heap, next.stack, next.frames, next.globals, next.memos⟩
      simp only
      split
      · rename_i cause raised
        exact ⟨⟨after.heap, after.stack, after.frames, after.globals, after.memos⟩,
          report.cause cause raised⟩
      · exact after.push report.value

theorem captured_names (tabular : m.Tabular origin) (c : Capture) : origin.Names (m.captured c) := by
  unfold captured
  split
  · trivial
  · split
    · rename_i f found
      exact (tabular.frames f (List.mem_of_getElem? found)).local_ c.source
    · trivial

theorem newSlots?_names (tabular : m.Tabular origin) {f : Function} {arguments : List Value}
    {slots : Array Value} (named : ∀ v ∈ arguments, origin.Names v)
    (made : m.newSlots? f arguments = some slots) : ∀ v ∈ slots, origin.Names v := by
  unfold newSlots? at made
  simp only at made
  split at made
  · cases made
  · obtain ⟨copied, first, second⟩ := Option.bind_eq_some_iff.mp made
    rw [← Array.foldlM_toList] at first
    -- Captured values are stored first, arguments over them; between are nulls.
    intro v member
    rcases Frame.mem_of_foldlM_storeSlot? second member with copy | rfl | ⟨w, given, rfl⟩
    · rcases Frame.mem_of_foldlM_storeSlot? first copy with blank | rfl | ⟨c, _, rfl⟩
      · rw [Array.eq_of_mem_replicate blank]
        trivial
      · trivial
      · exact captured_names tabular c
    · trivial
    · exact named w.1 (List.fst_mem_of_mem_zipIdx given)

theorem activate_tabular (tabular : m.Tabular origin) (routine : Routine) {arguments : List Value}
    (named : ∀ v ∈ arguments, origin.Names v) : (m.activate s routine arguments).Tabular origin := by
  unfold activate
  split
  · exact ⟨tabular, trivial⟩
  · split
    · rename_i entered
      unfold enter? at entered
      obtain ⟨chunk, _, entered⟩ := Option.bind_eq_some_iff.mp entered
      obtain ⟨slots, made, entered⟩ := Option.bind_eq_some_iff.mp entered
      cases entered
      refine tabular.withFrames ?_ m.handlers _ m.regionsEntered
      refine List.forall_mem_cons.mpr ⟨⟨newSlots?_names tabular named made, fun given kept => ?_⟩,
        tabular.frames⟩
      simp only at kept
      split at kept
      · cases kept
        exact named
      · cases kept
    · trivial

theorem callFunction_tabular (tabular : m.Tabular origin) (routine : Routine) {arguments : List Value}
    (named : ∀ v ∈ arguments, origin.Names v) : (m.callFunction s routine arguments).Tabular origin := by
  unfold callFunction
  split
  · exact activate_tabular tabular routine named
  · rename_i text _
    have remembered := tabular.memo ⟨s.loaded.unit, routine.position⟩
    have counted : (m.consult ⟨s.loaded.unit, routine.position⟩ text).2.Tabular origin := by
      refine tabular.setMemo ?_ _
      unfold Memo.counted
      split
      · exact remembered
      · exact remembered
    split
    · rename_i v m' consulted
      obtain ⟨found, rfl⟩ := Prod.mk.inj consulted
      obtain ⟨before, after, split, _⟩ := List.lookup_eq_some_iff.mp found
      exact counted.push (remembered (text, v) (by rw [split]; simp))
    · rename_i m' consulted
      obtain ⟨_, rfl⟩ := Prod.mk.inj consulted
      exact activate_tabular counted routine named

theorem call_tabular (natives : ∀ native ∈ s.natives, native.Tabular) (tabular : m.Tabular m.heap)
    (count : Nat) : (m.call s count).Tabular m.heap := by
  have named : ∀ v ∈ (m.stack.drop 1).latest count, m.heap.Names v := by
    intro v member
    have taken := List.mem_of_mem_take (List.mem_reverse.mp member)
    exact tabular.stack v (List.mem_of_mem_drop taken)
  have rest := tabular.drop (count + 1)
  unfold call
  split
  · trivial
  · simp only
    split
    · exact callNative_tabular natives rest _ named
    · split
      · exact ⟨rest, trivial⟩
      · trivial
      · split
        · exact ⟨rest, trivial⟩
        · exact callFunction_tabular rest _ named
    · exact ⟨rest, trivial⟩

theorem remember_tabular (tabular : m.Tabular origin) (named : origin.Names v) (f : Frame) :
    (m.remember s f v).Tabular origin := by
  unfold remember
  split
  · split
    · exact tabular
    · refine tabular.setMemo ?_ _
      refine List.forall_mem_cons.mpr ⟨named, ?_⟩
      exact fun result member => tabular.memo _ result (List.mem_filter.mp member).1
  · exact tabular

theorem returnFrom_tabular (tabular : m.Tabular origin) (named : origin.Names v) :
    (m.returnFrom s v).Tabular origin := by
  unfold returnFrom
  split
  · trivial
  · rename_i frame _
    have truncated : ({ m with stack := m.stack.truncate frame.stackStart } : Machine).Tabular origin :=
      tabular.drop (m.stack.height - frame.stackStart)
    have remembered := remember_tabular (s := s) truncated named frame
    obtain ⟨memos, same⟩ := remember_eq s { m with stack := m.stack.truncate frame.stackStart } frame v
    simp only
    rw [same] at remembered ⊢
    have lower : ∀ f ∈ (m.frames.drop 1).items, f.Named origin := fun f member =>
      tabular.frames f (List.mem_of_mem_drop member)
    have rest := remembered.withFrames lower
      (m.handlers.dropWhile fun h => m.frames.height - 1 ≤ h.frameIndex) m.activations m.regionsEntered
    split
    · exact ⟨rest, named⟩
    · exact rest.push named

/-! ## Instructions -/

theorem beginTry_tabular (tabular : m.Tabular origin) (frame : Frame) (index : Int) :
    (m.beginTry frame index).Tabular origin := by
  unfold beginTry
  split
  · exact ⟨tabular, trivial⟩
  · exact tabular.withFrames tabular.frames _ m.activations _

theorem endTry_tabular (tabular : m.Tabular origin) : m.endTry.Tabular origin := by
  unfold endTry
  split
  · exact tabular
  · have rest := tabular.withFrames tabular.frames (m.handlers.drop 1) m.activations m.regionsEntered
    simp only
    split
    · exact rest.modifyFrame fun _ named => ⟨named.slots, named.arguments⟩
    · exact rest

theorem binary_tabular (tabular : m.Tabular origin) (op : Opcode) :
    (m.withTwo fun a b m => m.yield_ (Operation.binary m.heap op a b)).Tabular origin :=
  withTwo_tabular tabular fun _ _ _ _ => yield_tabular (tabular.drop 2)
    (fun _ done => Operation.binary_has done {}) fun _ failed => Operation.binary_sparesColumns failed

theorem jumpIfFalse_tabular (tabular : m.Tabular origin) (distance : Int) :
    (m.withOne fun v m => .done (if v.truthy m.heap then m else m.jumpBy distance)).Tabular origin := by
  refine withOne_tabular tabular fun v _ => ?_
  show Machine.Tabular (if _ then _ else _) origin
  split
  · exact tabular.drop 1
  · exact (tabular.drop 1).jumpBy distance

theorem makeArray_tabular (tabular : m.Tabular origin) (count : Nat) :
    Effect.Tabular origin (
      let elements := m.stack.latest count
      let m := m.drop count
      let (r, heap) := m.heap.newArray elements.toArray
      .done ((m.withHeap heap).push (.array r))) := by
  have named : ∀ v ∈ (m.stack.latest count).toArray, origin.Names v := by
    intro v member
    exact tabular.stack v (List.mem_of_mem_take (List.mem_reverse.mp (List.mem_toArray.mp member)))
  exact ((tabular.drop count).withHeap (tabular.heap.newArray named)).push trivial

theorem execute_tabular (natives : ∀ native ∈ s.natives, native.Tabular) (tabular : m.Tabular m.heap)
    (named : frame.Named m.heap) (op : Opcode) (operand : Int) :
    (m.execute s frame op operand).Tabular m.heap := by
  have has {v : Value} (done : ({} : Heap).Has v) : m.heap.Names v := Heap.names_of_has done m.heap
  cases op with
  | nop | catch_ | endCatch => exact tabular
  | pop => exact withOne_tabular tabular fun _ _ => tabular.drop 1
  | constant =>
      simp only [execute]
      split
      · exact tabular.push (has (constant_has _ _))
      · exact ⟨tabular, trivial⟩
  | loadLocal => exact tabular.push (named.local_ operand)
  | storeLocal =>
      simp only [execute]
      refine withOne_tabular tabular fun v value => ?_
      split
      · rename_i changed stored
        have slots := (named.setLocal? stored value).slots
        exact (tabular.drop 1).modifyFrame fun f kept => ⟨slots, kept.arguments⟩
      · trivial
  | loadGlobal =>
      simp only [execute]
      split
      · rename_i v found
        exact tabular.push (tabular.globals v (Array.mem_of_getElem? found))
      · exact ⟨tabular, trivial⟩
  | storeGlobal =>
      simp only [execute]
      refine withOne_tabular tabular fun v value => ?_
      split
      · rename_i stored
        exact (tabular.drop 1).storeGlobal? value stored
      · trivial
  | negate =>
      simp only [execute]
      exact withOne_tabular tabular fun v _ => yield_tabular (tabular.drop 1)
        (fun _ done => Operation.negate_has done {}) fun _ failed => Operation.negate_sparesColumns failed
  | in_ =>
      simp only [execute]
      exact withTwo_tabular tabular fun _ _ _ _ => yield_tabular (tabular.drop 2)
        (fun _ done => Operation.member_has done {}) fun _ failed => Operation.member_sparesColumns failed
  | not =>
      simp only [execute]
      exact withOne_tabular tabular fun _ _ => (tabular.drop 1).push trivial
  | and | or =>
      simp only [execute]
      refine withTwo_tabular tabular fun a b first second => (tabular.drop 2).push ?_
      split <;> assumption
  | jump8 | jump16 | jump32 => exact tabular.jumpBy operand
  | jumpIfFalse8 | jumpIfFalse16 | jumpIfFalse32 => exact jumpIfFalse_tabular tabular operand
  | call => exact call_tabular natives tabular operand.toNat
  | return_ =>
      simp only [execute]
      split
      · exact withOne_tabular tabular fun v value => returnFrom_tabular (tabular.drop 1) value
      · exact returnFrom_tabular tabular trivial
  | makeArray => exact makeArray_tabular tabular operand.toNat
  | arrayLength =>
      simp only [execute]
      exact withOne_tabular tabular fun v value => yield_tabular (tabular.drop 1)
        (fun _ done => Operation.arrayLength_has done {})
        fun _ failed => Operation.arrayLength_sparesColumns failed tabular.heap value
  | arrayElement =>
      simp only [execute]
      exact withTwo_tabular tabular fun _ _ container _ =>
        yieldOn_tabular (tabular.drop 2) (Operation.element_answers tabular.heap container)
  | clone =>
      simp only [execute]
      exact withOne_tabular tabular fun v value =>
        ((tabular.drop 1).withHeap (tabular.heap.deepClone v)).push
          (Heap.Tabular.names_relocate value _ _)
  | beginTry => exact beginTry_tabular tabular frame operand
  | endTry => exact endTry_tabular tabular
  | throw =>
      simp only [execute]
      exact withOne_tabular tabular fun _ _ => ⟨tabular.drop 1, trivial⟩
  | popHandler => exact tabular.withFrames tabular.frames (m.handlers.drop 1) m.activations _
  | add | sub | mul | div | intDiv | mod | pow | equal | notEqual | greater | less | greaterEqual
  | lessEqual => exact binary_tabular tabular _

/-! ## Steps -/

/-- The same for a step. -/
def Outcome.Tabular (origin : Heap) : Outcome → Prop
  | .next m => m.Tabular origin
  | .finished _ m => m.Tabular origin
  | .failed fault m => m.Tabular origin ∧ fault.cause.SparesColumns
  | .broken => True

theorem resumed_tabular (tabular : m.Tabular origin) {h : Handler} {older : List Handler} {bound : Frame}
    (named : bound.Named origin) : (m.resumed h older bound).Tabular origin := by
  have cut := tabular.drop (m.stack.height - h.stackHeight)
  refine cut.withFrames ?_ _ m.activations m.regionsEntered
  intro f member
  rcases Stack.mem_modifyTop member with kept | ⟨_, _, rfl⟩
  · exact tabular.frames f (List.mem_of_mem_drop kept)
  · exact named

theorem enterCatch?_named {owner bound : Frame} {clause : CatchClause} {message : Text}
    (entered : enterCatch? owner clause message = some bound) (named : owner.Named origin) :
    bound.Named origin := by
  cases binds : clause.binds with
  | false =>
      rw [enterCatch?_of_not_binds binds] at entered
      cases entered
      exact ⟨named.slots, named.arguments⟩
  | true =>
      rw [enterCatch?_of_binds binds, Option.map_eq_some_iff] at entered
      obtain ⟨slots, stored, rfl⟩ := entered
      have kept := named.setLocal? (Option.map_eq_some_iff.mpr ⟨slots, stored, rfl⟩) trivial
      exact ⟨kept.slots, kept.arguments⟩

theorem raise_tabular (tabular : m.Tabular origin) {cause : Cause} (spares : cause.SparesColumns)
    (frame : Frame) (site : Int) : (m.raise frame cause site).Tabular origin := by
  unfold raise
  split
  · rename_i caught
    obtain ⟨h, clause, older, owner, bound, _, owned, entered, rfl⟩ := dispatch_caught caught
    have named := tabular.frames owner (Stack.mem_iff_get?.mpr ⟨_, owned⟩)
    exact resumed_tabular tabular (enterCatch?_named entered named)
  · exact ⟨tabular, spares⟩
  · trivial

theorem fetched_tabular (tabular : m.Tabular origin) (frame : Frame) (i : Chunk.Instruction) :
    (m.fetched frame i).Tabular origin :=
  tabular.modifyFrame fun _ named => ⟨named.slots, named.arguments⟩

theorem Fetches.named {i : Chunk.Instruction} (fetches : m.Fetches frame i) (tabular : m.Tabular origin) :
    frame.Named origin :=
  tabular.frames frame (Stack.mem_iff_get?.mpr ⟨_, Stack.top?_eq_get? ▸ fetches.top⟩)

theorem Fetches.execute_tabular {i : Chunk.Instruction} (fetches : m.Fetches frame i)
    (natives : ∀ native ∈ s.natives, native.Tabular) (tabular : m.Tabular m.heap) :
    ((m.fetched frame i).execute s frame i.op i.operand).Tabular m.heap :=
  Machine.execute_tabular natives (fetched_tabular tabular frame i) (fetches.named tabular) i.op i.operand

theorem perform_tabular {i : Chunk.Instruction} (fetches : m.Fetches frame i)
    (natives : ∀ native ∈ s.natives, native.Tabular) (tabular : m.Tabular m.heap) :
    (m.perform s frame frame.ip.toNat i).Tabular m.heap := by
  have executed := fetches.execute_tabular natives tabular
  unfold Machine.fetched at executed
  unfold perform
  simp only
  split
  · exact ⟨fetched_tabular tabular frame i, trivial⟩
  · split
    · rename_i done
      rw [done] at executed
      exact executed
    · rename_i raised
      rw [raised] at executed
      exact raise_tabular executed.1 executed.2 _ _
    · rename_i finished
      rw [finished] at executed
      exact executed.1
    · trivial

theorem endOfCode_tabular (tabular : m.Tabular origin) : (m.endOfCode s).Tabular origin := by
  unfold endOfCode
  split
  · refine (tabular.drop 1).withFrames (fun f member => ?_) m.handlers m.activations m.regionsEntered
    cases member
  · have returned : (m.returnFrom s .null).Tabular origin := returnFrom_tabular tabular trivial
    split
    · rename_i done
      rw [done] at returned
      exact returned
    · rename_i finished
      rw [finished] at returned
      exact returned.1
    · rename_i raised
      rw [raised] at returned
      exact returned
    · trivial

theorem step_tabular (natives : ∀ native ∈ s.natives, native.Tabular) (tabular : m.Tabular m.heap) :
    (m.step s).Tabular m.heap := by
  unfold step
  split
  · trivial
  · rename_i frame top
    split
    · exact endOfCode_tabular tabular
    · split
      · exact ⟨tabular, trivial⟩
      · rename_i pointer
        simp only
        split
        · rename_i i instruction
          exact perform_tabular ⟨top, Int.not_lt.mp pointer, instruction⟩ natives tabular
        · exact ⟨tabular, trivial⟩

/-! ## Runs -/

theorem Steps.tabular (next : Steps s m m') (natives : ∀ native ∈ s.natives, native.Tabular)
    (tabular : m.Tabular m.heap) : m'.Tabular m.heap := by
  have after := step_tabular natives tabular
  unfold Steps at next
  rwa [next] at after

theorem start_tabular {host : Host} (empty : host.heap = {}) (main : Chunk) :
    ((new host).start main).Tabular ((new host).start main).heap := by
  have heap : ((new host).start main).heap = {} := empty
  rw [heap]
  refine ⟨heap ▸ Heap.empty_tabular, fun v member => ?_, fun f member => ?_, fun v member => ?_,
    fun entry member => ?_⟩
  · cases member
  · cases List.mem_singleton.mp member
    exact ⟨by simp [Frame.root], fun given kept => by cases kept⟩
  · simp [start, new] at member
  · cases member

theorem reaches_tabular (natives : ∀ native ∈ s.natives, native.Tabular) (tabular : m.Tabular m.heap)
    (run : Reaches s m m') : m'.Tabular m'.heap ∧ m.heap.Grows m'.heap := by
  induction run with
  | refl => exact ⟨tabular, .refl _⟩
  | tail _ next ih =>
      -- The step is measured from the heap it began with, and the next one from the heap it left.
      have after := next.tabular natives ih.1
      exact ⟨after.settled, ih.2.trans after.heap.grows⟩

/-- The machine has the value somewhere: on the stack, in a slot or among the arguments of an activation, in a
global slot, as a remembered result or in a container. -/
inductive Carries (m : Machine) (v : Value) : Prop where
  | stack (member : v ∈ m.stack.items)
  | slot {f : Frame} (live : f ∈ m.frames.items) (stored : v ∈ f.slots)
  | argument {f : Frame} {given : List Value} (live : f ∈ m.frames.items) (kept : f.arguments = some given)
      (member : v ∈ given)
  | global (stored : v ∈ m.globals)
  | remembered {entry : MemoKey × Memo} {text : Text} (listed : entry ∈ m.memos)
      (stored : (text, v) ∈ entry.2.results)
  | inside {ref : Ref} (stored : v ∈ m.heap.contents ref)

theorem Tabular.names (tabular : m.Tabular origin) (carries : m.Carries v) : origin.Names v := by
  cases carries with
  | stack member => exact tabular.stack v member
  | slot live stored => exact (tabular.frames _ live).slots v stored
  | argument live kept member => exact (tabular.frames _ live).arguments _ kept v member
  | global stored => exact tabular.globals v stored
  | remembered listed stored => exact tabular.memos _ listed _ stored
  | @inside ref stored =>
      cases ref with
      | array r => exact tabular.heap.array r v (Array.mem_toList_iff.mp stored)
      | object r =>
          obtain ⟨field, member, rfl⟩ := List.mem_map.mp stored
          exact tabular.heap.object r field member
      | table r =>
          obtain ⟨row, listed, member⟩ := List.mem_flatten.mp stored
          exact (tabular.heap.table r).named row listed v member

/-- Every row has one cell per header, and every column that the machine carries is named by a header of a table
that exists. -/
structure Rectangular (m : Machine) : Prop where
  rows : ∀ r : TableRef, r.id < m.heap.tables.size → ∀ row ∈ (m.heap.table r).rows,
    row.length = (m.heap.table r).headers.length
  columns : ∀ r name, m.Carries (.column r name) →
    r.id < m.heap.tables.size ∧ name ∈ (m.heap.table r).headers

theorem Tabular.rectangular (tabular : m.Tabular m.heap) : m.Rectangular where
  rows := fun r _ => (tabular.heap.table r).cells
  columns := fun _ _ carries =>
    ⟨Heap.lt_of_mem_headers (tabular.names carries), tabular.names carries⟩

/-- The machine after a step, whether the run goes on or ends there. -/
def Outcome.machine? : Outcome → Option Machine
  | .next m | .finished _ m | .failed _ m => some m
  | .broken => none

/-- Run any program with the built-in natives on a machine that has run nothing. At all times tables are
rectangular and columns have their headers. From any time on, a table keeps its headers and its rows, and further
rows come after them. So no instruction finds a column missing that it is given. -/
theorem tables_grow_and_columns_stay {host : Host} {main : Chunk}
    (natives : s.natives = Native.builtins.toArray) (empty : host.heap = {})
    (run : Reaches s ((new host).start main) m) :
    m.Rectangular ∧
    (∀ m', Reaches s m m' → m.heap.Grows m'.heap) ∧
    (∀ m', (m.step s).machine? = some m' → m'.Rectangular ∧ m.heap.Grows m'.heap) ∧
    (∀ frame i cause raised, m.Faults s frame i cause raised → ∀ name, cause ≠ .columnMissing name) ∧
    ∀ fault m', m.step s = .failed fault m' → ∀ name, fault.cause ≠ .columnMissing name := by
  have natives : ∀ native ∈ s.natives, native.Tabular := by
    intro native member
    rw [natives, List.mem_toArray] at member
    exact Native.builtins_tabular native member
  have tabular := (reaches_tabular natives (start_tabular empty main) run).1
  have after := step_tabular natives tabular
  refine ⟨tabular.rectangular, fun m' later => (reaches_tabular natives tabular later).2, ?_, ?_, ?_⟩
  · intro m' led
    have kept : m'.Tabular m.heap := by
      cases outcome : m.step s with
      | next | finished =>
          rw [outcome] at after led
          cases led
          exact after
      | failed =>
          rw [outcome] at after led
          cases led
          exact after.1
      | broken =>
          rw [outcome] at led
          cases led
    exact ⟨kept.settled.rectangular, kept.heap.grows⟩
  · intro frame i cause raised faults
    have executed := faults.fetches.execute_tabular natives tabular
    rw [faults.raised] at executed
    exact executed.2.ne
  · intro fault m' failed
    rw [failed] at after
    exact after.2.ne

end Machine

/-! ## A table that is filled and read

The main chunk makes a table with one header, adds a row, takes the column and asks for its length.
-/

namespace Ledger

open Machine

def main : Chunk :=
  { Chunk.empty with
    code := some #[0x02, 0, 0, 0x60, 1, 0, 0x02, 1, 0, 0x50, 1, 0x02, 2, 0, 0x60, 1, 0, 0x02, 3, 0, 0x50, 2,
      0x02, 0, 0, 0x62, 0x61, 0x51]
    constants := some #[Literal.constant (.string [0x61]), Literal.constant (.native 2),
      Literal.constant (.bool true), Literal.constant (.native 3)] }

def setup : Setup where
  config := {}
  natives := Native.builtins.toArray
  loaded := ⟨0, ⟨some main, #[]⟩⟩

def host : Host := { heap := {}, files := .empty [] }

def after (count : Nat) : Machine := (runSteps setup count ((new host).start main)).2

end Ledger

namespace Machine

/-- Before the row is added the table has its header; when the column is on the stack, so it has. -/
theorem tables_grow_and_columns_stay_in_ledger :
    (Ledger.after 7).heap.table ⟨0⟩ = .ofHeaders [[0x61]] ∧
    ((Ledger.after 10).heap.table ⟨0⟩).rows = [[.bool true]] ∧
    (Ledger.after 10).Carries (.column ⟨0⟩ [0x61]) ∧
    ((Ledger.after 7).heap.Grows (Ledger.after 10).heap) ∧ (Ledger.after 10).Rectangular := by
  have early : Reaches Ledger.setup ((new Ledger.host).start Ledger.main) (Ledger.after 7) :=
    reaches_iff_runSteps.mpr ⟨7, rfl⟩
  have later : Reaches Ledger.setup (Ledger.after 7) (Ledger.after 10) :=
    reaches_iff_runSteps.mpr ⟨3, rfl⟩
  obtain ⟨_, grows, _⟩ := tables_grow_and_columns_stay rfl rfl early
  obtain ⟨rectangular, _⟩ := tables_grow_and_columns_stay rfl rfl (early.trans later)
  exact ⟨rfl, rfl, .stack (by decide), grows _ later, rectangular⟩

end Machine

end TableMachine
