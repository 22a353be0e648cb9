import TableMachine.Proofs.Inert
import TableMachine.Proofs.Remembering
import TableMachine.Proofs.Slots

/-! # Reading globals

The global slots are an array that grows to the highest slot ever stored. It stands for a map from slots to
values, and here it is compared with the list of all stores that the host and the programs made on one machine,
across runs. A slot reads as the value stored to it last. A slot that was never stored is told from the others
only if no higher one was stored either: growth fills the gap below a stored slot with null, and such a slot reads
as null where an undefined variable is meant.

Only one instruction writes globals, so most of the argument is that the others leave them alone.
-/

namespace TableMachine

namespace Machine

/-! ## Stores -/

/-- The next instruction stores `v` to a global slot, and completes. -/
structure StoresGlobal (s : Setup) (m : Machine) (slot : Nat) (v : Value) (m' : Machine) : Prop where
  executes : ∃ frame i, m.Executes s frame i m' ∧ i.op = .storeGlobal ∧ i.operand.toNat = slot
  top : m.stack.top? = some v

/-- `m` is a machine on which these stores were made, the latest first: by the host, between runs or before them,
and by the programs that were run. -/
inductive Past : Machine → List (Nat × Value) → Prop where
  /-- Nothing was stored to a new machine. -/
  | new (host : Host) : Past (.new host) []
  | define {m m' stores slot v} (past : Past m stores) (defined : m.defineGlobal? slot v = some m') :
      Past m' ((slot.toNat, v) :: stores)
  | start {m stores} (past : Past m stores) (main : Chunk) : Past (m.start main) stores
  | store {s m m' stores slot v} (past : Past m stores) (stored : m.StoresGlobal s slot v m') :
      Past m' ((slot, v) :: stores)
  /-- Any step that stores nothing. -/
  | step {s m m' stores} (past : Past m stores) (next : Steps s m m')
      (other : ∀ slot v, ¬ m.StoresGlobal s slot v m') : Past m' stores
  | end_ {s m rest stores} (past : Past m stores) (ends : m.EndsWith s rest) : Past rest stores

/-- What a slot holds after some stores, the latest first: what was stored to it last, null if it lies below a
stored one, and nothing otherwise. -/
def slotAfter (stores : List (Nat × Value)) (slot : Nat) : Option Value :=
  match stores.lookup slot with
  | some v => some v
  | none => if stores.any (slot < ·.1) then some .null else none

end Machine

/-! ## Instructions that leave globals alone -/

/-- Whatever the instruction did, these are the globals afterwards. -/
def Effect.HasGlobals (globals : Array Value) : Effect → Prop
  | .done m | .raised _ m | .finished _ m => m.globals = globals
  | .broken => True

/-- Whatever the step led to, these are the globals afterwards. -/
def Machine.Outcome.HasGlobals (globals : Array Value) : Machine.Outcome → Prop
  | .next m | .finished _ m | .failed _ m => m.globals = globals
  | .broken => True

namespace Machine

variable {s : Setup} {m m' rest : Machine} {frame : Frame} {i : Chunk.Instruction} {op : Opcode} {operand : Int}
  {globals : Array Value} {v : Value} {stores : List (Nat × Value)}

/-- A native sees the host and not the machine. -/
theorem callNative_hasGlobals (index : Int) (arguments : List Value) :
    (m.callNative s index arguments).HasGlobals m.globals := by
  unfold callNative
  split
  · rfl
  · simp only
    split
    · rfl
    · rfl

theorem inert_globals : Inert Machine.globals := fun _ _ _ _ _ _ _ _ => rfl

theorem execute_hasGlobals (other : op ≠ .storeGlobal) :
    (m.execute s frame op operand).HasGlobals m.globals :=
  inert_globals.execute rfl (fun store => absurd store other) fun _ _ _ => callNative_hasGlobals _ _

/-! ## The instruction that stores -/

theorem globals_of_storeGlobal? {slot : Int} (stored : m.storeGlobal? slot v = some m') :
    Frame.storeSlot? m.globals slot v = some m'.globals := by
  obtain ⟨globals, done, rfl⟩ := Option.map_eq_some_iff.mp stored
  exact done

theorem storeGlobal_done_or_broken (s : Setup) (m : Machine) (frame : Frame) (operand : Int) :
    (∃ m', m.execute s frame .storeGlobal operand = .done m') ∨
      m.execute s frame .storeGlobal operand = .broken := by
  simp only [execute, withOne]
  split
  · split
    · exact .inl ⟨_, rfl⟩
    · exact .inr rfl
  · exact .inr rfl

/-- The slots afterwards are those of an array with one of them stored. -/
theorem StoresGlobal.storeSlot? {slot : Nat} (stores : m.StoresGlobal s slot v m') :
    ∃ place : Int, place.toNat = slot ∧ Frame.storeSlot? m.globals place v = some m'.globals := by
  obtain ⟨frame, i, executes, store, same⟩ := stores.executes
  refine ⟨i.operand, same, ?_⟩
  have done := executes.done
  simp only [store, execute] at done
  obtain ⟨w, _, items, done⟩ := withOne_cases done (by simp)
  -- The operand on top is still there when the pointer has moved on.
  have top : m.stack.top? = some w := Stack.top?_eq_some_iff.mpr ⟨_, items⟩
  cases top.symm.trans stores.top
  split at done
  · rename_i stored
    cases done
    exact globals_of_storeGlobal? (m := (m.fetched frame i).drop 1) stored
  · cases done

theorem StoresGlobal.steps {slot : Nat} (stores : m.StoresGlobal s slot v m') : Steps s m m' := by
  obtain ⟨frame, i, executes, _⟩ := stores.executes
  exact executes.steps

theorem Executes.storesGlobal (executes : m.Executes s frame i m') (store : i.op = .storeGlobal) :
    ∃ v, m.StoresGlobal s i.operand.toNat v m' := by
  have enough : 0 < m.stack.height := by
    have enough := executes.enough
    rwa [store] at enough
  obtain ⟨v, top⟩ := Stack.exists_top? enough
  exact ⟨v, ⟨frame, i, executes, store, rfl⟩, top⟩

theorem Fetches.not_storesGlobal {slot : Nat} (fetches : m.Fetches frame i) (other : i.op ≠ .storeGlobal) :
    ¬ m.StoresGlobal s slot v m' := by
  intro stores
  obtain ⟨f, j, executes, store, _⟩ := stores.executes
  cases fetches.top.symm.trans executes.fetches.top
  cases fetches.instruction.symm.trans executes.fetches.instruction
  exact other store

/-! ## Steps -/

/-- A step leaves the globals alone, unless it stores one. -/
theorem step_globals (s : Setup) (m : Machine) :
    (m.step s).HasGlobals m.globals ∨ ∃ slot v m', m.StoresGlobal s slot v m' := by
  by_cases stored : ∃ slot v m', m.StoresGlobal s slot v m'
  · exact .inr stored
  · refine .inl (inert_globals.step m fun frame i fetches enough => ?_)
    by_cases store : i.op = .storeGlobal
    · rw [store]
      rcases storeGlobal_done_or_broken s (m.fetched frame i) frame i.operand with ⟨m', done⟩ | broken
      · obtain ⟨v, stores⟩ := Executes.storesGlobal ⟨fetches, enough, store ▸ done⟩ store
        exact absurd ⟨_, v, m', stores⟩ stored
      · rw [broken]
        trivial
    · exact execute_hasGlobals store

/-! ## Reading -/

theorem slotAfter_cons (slot : Nat) (v : Value) (stores : List (Nat × Value)) (n : Nat) :
    slotAfter ((slot, v) :: stores) n =
      if n = slot then some v else if n < slot then (slotAfter stores n).or (some .null) else slotAfter stores n := by
  unfold slotAfter
  grind

theorem slotAfter_of_lookup {n : Nat} (last : stores.lookup n = some v) : slotAfter stores n = some v := by
  unfold slotAfter
  rw [last]

theorem slotAfter_eq_none_iff {n : Nat} :
    slotAfter stores n = none ↔ ∀ slot v, (slot, v) ∈ stores → slot < n := by
  induction stores with
  | nil => simp [slotAfter]
  | cons store rest ih =>
      obtain ⟨slot, v⟩ := store
      rw [slotAfter_cons]
      grind

theorem slotAfter_of_gap {n : Nat} (never : ∀ v, (n, v) ∉ stores)
    (above : ∃ slot v, (slot, v) ∈ stores ∧ n < slot) : slotAfter stores n = some .null := by
  unfold slotAfter
  grind

/-- Growing to a stored slot fills the gap before it just as `slotAfter` does. -/
theorem getElem?_of_storeSlot?_slotAfter {globals' : Array Value} {place : Int}
    (same : ∀ n, globals[n]? = slotAfter stores n) (done : Frame.storeSlot? globals place v = some globals')
    (n : Nat) : globals'[n]? = slotAfter ((place.toNat, v) :: stores) n := by
  rw [Frame.getElem?_of_storeSlot? done, slotAfter_cons, ← same n]
  grind

theorem EndsWith.globals_eq (ends : m.EndsWith s rest) : rest.globals = m.globals := by
  rcases step_globals s m with kept | ⟨slot, v, m', stores⟩
  · rcases ends with ⟨v, finished⟩ | ⟨fault, last, failed, rfl⟩
    · rw [finished] at kept
      exact kept
    · rw [failed] at kept
      exact kept
  · have next : m.step s = .next m' := stores.steps
    rcases ends with ⟨v, finished⟩ | ⟨fault, last, failed, _⟩
    · cases next.symm.trans finished
    · cases next.symm.trans failed

/-- A step that stores nothing leaves the globals alone. -/
theorem Steps.globals_eq (next : Steps s m m') (other : ∀ slot v, ¬ m.StoresGlobal s slot v m') :
    m'.globals = m.globals := by
  rcases step_globals s m with kept | ⟨slot, v, d, stores⟩
  · unfold Steps at next
    rw [next] at kept
    exact kept
  · cases stores.steps.symm.trans next
    exact absurd stores (other slot v)

/-- The slots of a machine hold what its past says, and there are no others. -/
theorem Past.getElem?_globals (past : m.Past stores) (slot : Nat) : m.globals[slot]? = slotAfter stores slot := by
  induction past generalizing slot with
  | new host => rfl
  | define past defined ih =>
      unfold defineGlobal? at defined
      split at defined
      · cases defined
      · exact getElem?_of_storeSlot?_slotAfter ih (globals_of_storeGlobal? defined) slot
  | start past main ih => exact ih slot
  | store past stored ih =>
      obtain ⟨place, rfl, done⟩ := stored.storeSlot?
      exact getElem?_of_storeSlot?_slotAfter ih done slot
  | step past next other ih =>
      rw [next.globals_eq other]
      exact ih slot
  | end_ past ends ih =>
      rw [ends.globals_eq]
      exact ih slot

/-- Whatever step comes next, the past goes on. -/
theorem Past.exists_of_steps (past : m.Past stores) (next : Steps s m m') :
    ∃ later, m'.Past (later ++ stores) := by
  by_cases stored : ∃ slot v, m.StoresGlobal s slot v m'
  · obtain ⟨slot, v, stored⟩ := stored
    exact ⟨[(slot, v)], past.store stored⟩
  · refine ⟨[], past.step next ?_⟩
    intro slot v stores
    exact stored ⟨slot, v, stores⟩

/-- What it means for the next instruction to read a global slot after some stores, the latest first. -/
structure ReadsGlobal (s : Setup) (m : Machine) (frame : Frame) (i : Chunk.Instruction)
    (stores : List (Nat × Value)) : Prop where
  /-- A slot that was stored reads as the value stored to it last, whatever was stored to others. -/
  latest : ∀ v, stores.lookup i.operand.toNat = some v →
    m.Executes s frame i ((m.fetched frame i).push v)
  /-- A slot that was never stored reads as null where a higher one was. -/
  gap : (∀ v, (i.operand.toNat, v) ∉ stores) → (∃ slot v, (slot, v) ∈ stores ∧ i.operand.toNat < slot) →
    m.Executes s frame i ((m.fetched frame i).push .null)
  /-- It is an undefined variable where all stores went to lower ones. -/
  undefined : (∀ slot v, (slot, v) ∈ stores → slot < i.operand.toNat) ↔
    m.Faults s frame i (.undefinedGlobal (m.globalNames.get? i.operand)) (m.fetched frame i)
  /-- There is no other fault. -/
  fault : ∀ cause raised, m.Faults s frame i cause raised →
    cause = .undefinedGlobal (m.globalNames.get? i.operand) ∧ raised = m.fetched frame i

theorem Fetches.executes_loadGlobal (fetches : m.Fetches frame i) (load : i.op = .loadGlobal)
    (found : m.globals[i.operand.toNat]? = some v) : m.Executes s frame i ((m.fetched frame i).push v) := by
  refine ⟨fetches, ?_, ?_⟩
  · rw [load]
    exact Nat.zero_le _
  · have same : (m.fetched frame i).globals = m.globals := rfl
    simp only [load, execute, same, found]

theorem Fetches.faults_loadGlobal_iff (fetches : m.Fetches frame i) (load : i.op = .loadGlobal) {cause : Cause} :
    m.Faults s frame i cause m' ↔ m.globals[i.operand.toNat]? = none ∧
      cause = .undefinedGlobal (m.globalNames.get? i.operand) ∧ m' = m.fetched frame i := by
  have same : (m.fetched frame i).globals = m.globals := rfl
  constructor
  · intro faults
    have raised := faults.raised
    simp only [load, execute, same] at raised
    split at raised
    · cases raised
    · rename_i missing
      cases raised
      exact ⟨missing, rfl, rfl⟩
  · rintro ⟨missing, rfl, rfl⟩
    refine ⟨fetches, ?_, ?_⟩
    · rw [load]
      exact Nat.zero_le _
    · simp only [load, execute, same, missing]
      rfl

/-- Every machine has a past, which goes on with every step. After whatever the host and the programs of earlier
runs and of this one stored, reading a global slot gives what was stored to it last. A slot that was never stored
is an undefined variable, unless a higher one was stored: then it reads as null. -/
theorem loadGlobal_reads_past (past : m.Past stores) :
    (∀ m', Steps s m m' → ∃ later, m'.Past (later ++ stores)) ∧
    ∀ frame i, m.Fetches frame i → i.op = .loadGlobal → m.ReadsGlobal s frame i stores := by
  refine ⟨fun m' => past.exists_of_steps, ?_⟩
  intro frame i fetches load
  have held := past.getElem?_globals i.operand.toNat
  constructor
  case latest =>
    intro v last
    apply fetches.executes_loadGlobal load
    rw [held, slotAfter_of_lookup last]
  case gap =>
    intro never above
    apply fetches.executes_loadGlobal load
    rw [held, slotAfter_of_gap never above]
  case undefined =>
    rw [fetches.faults_loadGlobal_iff load, held, slotAfter_eq_none_iff]
    simp
  case fault =>
    intro cause raised faults
    exact ((fetches.faults_loadGlobal_iff load).mp faults).2

end Machine

/-! ## A variable between stored ones

The host stores slot 0. The main chunk stores slot 4 and reads slots 4, 3 and 5, of which it has a name for the
last two.
-/

namespace Gap

open Machine

def main : Chunk :=
  { Chunk.empty with
    code := some #[0x02, 0, 0, 0x13, 4, 0, 0x12, 4, 0, 0x12, 3, 0, 0x12, 5, 0]
    constants := some #[Literal.constant (.bool true)]
    globals := some ⟨[(3, [0x78]), (5, [0x79])], by decide⟩ }

def setup : Setup where
  config := {}
  natives := #[]
  loaded := ⟨0, ⟨some main, #[]⟩⟩

def host : Host := { heap := {}, files := .empty [] }

/-- The machine with slot 0 stored. -/
def fresh : Machine := ((new host).defineGlobal? 0 (.bool false)).getD (new host)

def after (count : Nat) : Machine := (runSteps setup count (fresh.start main)).2

def frame (count : Nat) : Frame := ((after count).frames.top?).getD (Frame.root main)

theorem past_fresh : fresh.Past [(0, .bool false)] := by
  have defined : (new host).defineGlobal? 0 (.bool false) = some fresh := rfl
  exact .define (.new host) defined

theorem past_after_two : (after 2).Past [(4, .bool true), (0, .bool false)] := by
  have zero : (after 0).Fetches (frame 0) ⟨.constant, 0⟩ := ⟨rfl, by decide, rfl⟩
  have one : (after 1).Fetches (frame 1) ⟨.storeGlobal, 4⟩ := ⟨rfl, by decide, rfl⟩
  have begun : (after 1).Past [(0, .bool false)] :=
    (past_fresh.start main).step (s := setup) rfl fun _ _ => zero.not_storesGlobal (by decide)
  have stored : (after 1).StoresGlobal setup 4 (.bool true) (after 2) :=
    ⟨⟨frame 1, ⟨.storeGlobal, 4⟩, ⟨one, by decide, rfl⟩, rfl, rfl⟩, rfl⟩
  exact begun.store stored

end Gap

namespace Machine

/-- The slot that was stored, the one below it that nobody stored, and the one above it. -/
theorem loadGlobal_reads_past_of_gap :
    (Gap.after 2).Executes Gap.setup (Gap.frame 2) ⟨.loadGlobal, 4⟩
      (((Gap.after 2).fetched (Gap.frame 2) ⟨.loadGlobal, 4⟩).push (.bool true)) ∧
    (Gap.after 3).Executes Gap.setup (Gap.frame 3) ⟨.loadGlobal, 3⟩
      (((Gap.after 3).fetched (Gap.frame 3) ⟨.loadGlobal, 3⟩).push .null) ∧
    (Gap.after 4).Faults Gap.setup (Gap.frame 4) ⟨.loadGlobal, 5⟩ (.undefinedGlobal (some [0x79]))
      ((Gap.after 4).fetched (Gap.frame 4) ⟨.loadGlobal, 5⟩) := by
  have two : (Gap.after 2).Fetches (Gap.frame 2) ⟨.loadGlobal, 4⟩ := ⟨rfl, by decide, rfl⟩
  have three : (Gap.after 3).Fetches (Gap.frame 3) ⟨.loadGlobal, 3⟩ := ⟨rfl, by decide, rfl⟩
  have four : (Gap.after 4).Fetches (Gap.frame 4) ⟨.loadGlobal, 5⟩ := ⟨rfl, by decide, rfl⟩
  have past := Gap.past_after_two
  have later : (Gap.after 3).Past _ :=
    past.step (s := Gap.setup) rfl fun _ _ => two.not_storesGlobal (by decide)
  have last : (Gap.after 4).Past _ :=
    later.step (s := Gap.setup) rfl fun _ _ => three.not_storesGlobal (by decide)
  refine ⟨((loadGlobal_reads_past past).2 _ _ two rfl).latest _ rfl, ?_, ?_⟩
  · exact ((loadGlobal_reads_past later).2 _ _ three rfl).gap (by simp) ⟨4, .bool true, by simp, by decide⟩
  · apply ((loadGlobal_reads_past last).2 _ _ four rfl).undefined.mp
    intro slot v member
    simp only [List.mem_cons, Prod.mk.injEq, List.not_mem_nil, or_false] at member
    show slot < 5
    omega

end Machine

end TableMachine
