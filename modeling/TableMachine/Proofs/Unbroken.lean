import TableMachine.Proofs.Catching
import TableMachine.Proofs.GoodValues

/-! # Steps that never break

Code is not checked before it runs, so each of its instructions has to be safe in every state that a run
can reach. What makes it so is an invariant: handlers match activations, activations run chunks of the
program, and the values that the machine holds are good. Then no step breaks, and the run ends, if it
does, with a good value or a fault.
-/

namespace TableMachine

/-! ## Operands in code -/

namespace Chunk

theorem unsignedOf_lt (bytes : List UInt8) : unsignedOf bytes < pow256 bytes.length := by
  induction bytes with
  | nil => exact Nat.one_pos
  | cons b rest ih =>
      have byte : b.toNat < 256 := b.toNat_lt
      show b.toNat + 256 * unsignedOf rest < pow256 rest.length * 256
      omega

/-- An operand without a sign has two bytes at most. -/
theorem instruction?_bounds {c : Chunk} {offset : Nat} {i : Instruction}
    (found : c.instruction? offset = some i) (unsigned : i.op.isSigned = false) :
    0 ≤ i.operand ∧ i.operand < pow2 16 := by
  obtain ⟨_, bytes, _, _, _, operand, length, _⟩ := instruction?_eq_some found
  have narrow : i.op.width ≤ 2 := by
    generalize i.op = op at unsigned
    cases op <;> first | decide | cases unsigned
  have small := unsignedOf_lt bytes
  have bound : pow256 bytes.length ≤ pow2 16 := Nat.pow_le_pow_right (by decide) (length ▸ narrow)
  simp only [operand, decodeOperand, unsigned, Bool.false_eq_true, if_false]
  omega

end Chunk

namespace Machine

variable {s : Setup} {m m' m₀ : Machine} {frame : Frame} {i : Chunk.Instruction} {main : Chunk}

/-! ## Faults -/

/-- The step did not break: it led to a next machine, a value or a fault, and left good values. -/
def Outcome.Sound : Outcome → Prop
  | .next m => m.Sound
  | .finished result m => m.Sound ∧ m.heap.Has result
  | .failed _ m => m.Sound
  | .broken => False

/-- All activations run chunks of the program. -/
def Coded (s : Setup) (m : Machine) : Prop :=
  ∀ f ∈ m.frames.items, s.loaded.program.HasChunk f.chunk

theorem Shrinks.coded (shrinks : m.Shrinks m') (coded : m.Coded s) : m'.Coded s := by
  intro f member
  obtain ⟨p, found⟩ := Stack.mem_iff_get?.mp member
  obtain ⟨f₀, before, continues⟩ := shrinks.frames p f found
  rw [continues.chunk]
  exact coded f₀ (Stack.mem_iff_get?.mpr ⟨p, before⟩)

theorem enterCatch?_good {heap : Heap} {owner bound : Frame} {clause : CatchClause} {message : Text}
    (entered : enterCatch? owner clause message = some bound) (good : owner.Good heap) :
    bound.Good heap := by
  cases binds : clause.binds with
  | false =>
      rw [enterCatch?_of_not_binds binds] at entered
      cases entered
      exact ⟨good.slots, good.arguments⟩
  | true =>
      rw [enterCatch?_of_binds binds, Option.map_eq_some_iff] at entered
      obtain ⟨slots, stored, rfl⟩ := entered
      refine ⟨fun x member => ?_, good.arguments⟩
      rcases Frame.mem_of_storeSlot? stored member with old | rfl | rfl
      · exact good.slots x old
      · trivial
      · trivial

theorem resumed_sound (sound : m.Sound) {h : Handler} {older : List Handler} {bound : Frame}
    (good : bound.Good m.heap) : (m.resumed h older bound).Sound := by
  have cut := sound.drop (m.stack.height - h.stackHeight)
  refine cut.withFrames ?_ _ m.activations m.regionsEntered
  intro f member
  rcases Stack.mem_modifyTop member with kept | ⟨_, _, rfl⟩
  · exact sound.frames f (List.mem_of_mem_drop kept)
  · exact good

/-- A fault is caught or ends the run. -/
theorem raise_sound (safe : s.Safe) (inv : m.Bracketed s) (coded : m.Coded s) (sound : m.Sound)
    (frame : Frame) (cause : Cause) (site : Int) : (m.raise frame cause site).Sound := by
  cases found : m.catcher? cause.errorType site m.handlers.items with
  | none =>
      rw [raise_of_uncaught (catcher?_eq_none_iff.mp found)]
      exact sound
  | some selected =>
      obtain ⟨h, clause, older⟩ := selected
      obtain ⟨newer, handlers, _, offered⟩ := catcher?_eq_some_iff.mp found
      have member : h ∈ m.handlers.items := by rw [handlers]; simp
      have inside := Nat.le_sub_one_of_lt (inv.frameIndex_lt member)
      obtain ⟨owner, offers⟩ := (clauseFor?_eq_some_iff inside).mp offered
      obtain ⟨f, owned, _, listed⟩ := inv.owned h member
      cases offers.owned.symm.trans owned
      have stored : owner ∈ m.frames.items := Stack.mem_iff_get?.mpr ⟨_, owned⟩
      obtain ⟨low, high⟩ := safe.clauses _ (coded owner stored) _ listed _ offers.listed
      have room : (pow2 31 : Int) < maxValues := by decide
      obtain ⟨bound, entered⟩ :=
        enterCatch?_isSome low (Int.lt_trans high room) owner cause.message
      unfold raise
      rw [dispatch_of_catcher? found owned, entered]
      exact resumed_sound sound (enterCatch?_good entered (sound.frames owner stored))

/-! ## Steps -/

theorem fetched_sound (sound : m.Sound) (frame : Frame) (i : Chunk.Instruction) :
    (m.fetched frame i).Sound :=
  sound.modifyFrame fun _ good => ⟨good.slots, good.arguments⟩

theorem perform_sound (safe : s.Safe) (inv : m.Bracketed s) (coded : m.Coded s) (sound : m.Sound)
    (fetches : m.Fetches frame i) : (m.perform s frame frame.ip.toNat i).Sound := by
  have start := (fetched_works m frame i).shrinks inv
  have inv' := start.bracketed inv
  have fetched := fetched_sound sound frame i
  have good := sound.frames frame (Stack.mem_iff_get?.mpr ⟨_, Stack.top?_eq_get? ▸ fetches.top⟩)
  unfold perform
  simp only
  split
  · exact fetched
  · rename_i height
    have enough : needed i.op i.operand ≤ (m.fetched frame i).stack.height := Nat.le_of_not_lt height
    have executed := execute_sound safe fetched good inv'.live enough
      (Chunk.instruction?_bounds fetches.instruction)
    unfold Machine.fetched at executed
    split
    · rename_i done
      rw [done] at executed
      exact executed
    · rename_i cause raised raising
      rw [raising] at executed
      have shrinks := Faults.shrinks ⟨fetches, enough, raising⟩ inv
      exact raise_sound safe (shrinks.bracketed inv) (shrinks.coded coded) executed _ _ _
    · rename_i finished
      rw [finished] at executed
      exact executed
    · rename_i broken
      rw [broken] at executed
      exact executed

theorem endOfCode_sound (inv : m.Bracketed s) (sound : m.Sound) : (m.endOfCode s).Sound := by
  unfold endOfCode
  split
  · refine ⟨(sound.drop 1).withFrames (fun f member => ?_) m.handlers m.activations m.regionsEntered, ?_⟩
    · cases member
    · show m.heap.Has (m.stack.top?.getD .null)
      cases top : m.stack.top? with
      | none => trivial
      | some v =>
          obtain ⟨rest, items⟩ := Stack.top?_eq_some_iff.mp top
          exact sound.stack v (by rw [items]; exact List.mem_cons_self)
  · have returned : (m.returnFrom s .null).Sound := returnFrom_sound sound inv.live trivial
    split
    · rename_i done
      rw [done] at returned
      exact returned
    · rename_i finished
      rw [finished] at returned
      exact returned
    · rename_i raised
      rw [raised] at returned
      exact returned
    · rename_i broken
      rw [broken] at returned
      exact returned

theorem step_sound (safe : s.Safe) (inv : m.Bracketed s) (coded : m.Coded s) (sound : m.Sound) :
    (m.step s).Sound := by
  obtain ⟨frame, top⟩ := Stack.exists_top? inv.live
  unfold step
  simp only [top]
  split
  · exact endOfCode_sound inv sound
  · split
    · exact sound
    · rename_i pointer
      split
      · rename_i i instruction
        exact perform_sound safe inv coded sound ⟨top, Int.not_lt.mp pointer, instruction⟩
      · exact sound

/-! ## Runs -/

theorem Advances.coded (advances : m.Advances s m') (inv : m.Bracketed s) (coded : m.Coded s) :
    m'.Coded s := by
  rcases advances.cases inv with shrinks | ⟨mid, called, shrinks, change⟩ |
    ⟨frame, i, region, _, _, change⟩
  · exact shrinks.coded coded
  · intro f member
    rw [change.frames, Stack.items_push] at member
    rcases List.mem_cons.mp member with rfl | old
    · obtain ⟨routine, index, _, chunk, found⟩ := change.routine
      exact .inr ⟨routine.function, Program.mem_of_function? found, chunk⟩
    · exact shrinks.coded coded f old
  · intro f member
    rw [change.frames] at member
    exact ((fetched_works m frame i).shrinks inv).coded coded f member

theorem start_sound (formed : m₀.WellFormed) (main : Chunk) : (m₀.start main).Sound := by
  refine ⟨⟨formed.closed, formed.globals, formed.memos⟩, fun v member => ?_, fun f member => ?_⟩
  · cases member
  · cases List.mem_singleton.mp member
    exact ⟨by simp [Frame.root], fun given kept => by cases kept⟩

theorem start_coded (main_ : s.loaded.program.main = some main) : (m₀.start main).Coded s := by
  intro f member
  cases List.mem_singleton.mp member
  exact .inl main_

theorem reaches_sound (safe : s.Safe) (main_ : s.loaded.program.main = some main)
    (formed : m₀.WellFormed) (run : Reaches s (m₀.start main) m) : m.Coded s ∧ m.Sound := by
  induction run with
  | refl => exact ⟨start_coded main_, start_sound formed main⟩
  | @tail m m' run next ih =>
      obtain ⟨coded, sound⟩ := ih
      have inv := reaches_bracketed run
      have after := step_sound safe inv coded sound
      unfold Steps at next
      rw [next] at after
      exact ⟨(step_advances next).coded inv coded, after⟩

theorem new_wellFormed {host : Host} (closed : host.heap.Closed) : (new host).WellFormed :=
  ⟨closed, by simp [new], by simp [new]⟩

/-- What outlives a run is good again, however the run ends, so the machine can run the next program. -/
theorem run_wellFormed (safe : s.Safe) (formed : m₀.WellFormed) (fuel : Nat) :
    (m₀.run s fuel).2.WellFormed := by
  have steps : ∀ fuel (m : Machine), m.Bracketed s → m.Coded s → m.Sound →
      (runSteps s fuel m).2.WellFormed := by
    intro fuel
    induction fuel with
    | zero => exact fun m _ _ sound => sound.toWellFormed
    | succ fuel ih =>
        intro m inv coded sound
        have after := step_sound safe inv coded sound
        unfold runSteps
        split
        · rename_i m' next
          rw [next] at after
          have advances := step_advances next
          exact ih m' (advances.bracketed inv) (advances.coded inv coded) after
        · rename_i finished
          rw [finished] at after
          exact after.1.toWellFormed
        · rename_i failed
          rw [failed] at after
          exact ⟨after.closed, after.globals, after.memos⟩
        · exact sound.toWellFormed
  unfold run
  split
  · exact formed
  · rename_i main main_
    exact steps fuel _ (start_bracketed s m₀ main) (start_coded main_) (start_sound formed main)

/-- A program that was loaded, and whose captures and clauses name slots below two to the power of
thirty-one, never breaks: from a machine with good values, each step of its run leads to a next machine,
to a value or to a fault, and all values stay good. -/
theorem loaded_never_breaks {data : Text} {p : Program} (loaded : Artifact.load data = .ok p)
    (captures : ∀ f, some f ∈ p.functions → ∀ c ∈ f.captures, 0 ≤ c.target ∧ c.target < pow2 31)
    (clauses : ∀ chunk, p.HasChunk chunk → ∀ region ∈ chunk.regions.entries, ∀ c ∈ region.clauses,
      noIndex ≤ c.slot ∧ c.slot < pow2 31)
    (program : s.loaded.program = p) (natives : s.natives = Native.builtins.toArray)
    (main_ : p.main = some main) (formed : m₀.WellFormed) (run : Reaches s (m₀.start main) m) :
    m.Sound ∧ m.step s ≠ .broken ∧ (m.step s).Sound := by
  subst program
  have safe : s.Safe := by
    refine ⟨fun entry member => Artifact.load_functions loaded member, captures, clauses, ?_⟩
    intro native member
    rw [natives, List.mem_toArray] at member
    exact Native.builtins_sound native member
  obtain ⟨coded, sound⟩ := reaches_sound safe main_ formed run
  have after := step_sound safe (reaches_bracketed run) coded sound
  refine ⟨sound, fun broken => ?_, after⟩
  rw [broken] at after
  exact after

end Machine

/-! A stored program that calls a function with a capture inside a try region. The function's only
instruction lacks its operand. -/

namespace Sample

def artifact : Text :=
  [0x44, 0x43, 0x42, 0x43, 1, 0, 162, 1, 163, 2, 73, 112, 0, 0, 2, 0, 0, 80, 0, 113, 3, 129, 162, 1, 4, 5,
    0, 5, 129, 162, 1, 129, 163, 1, 9, 2, 32, 3, 0, 2, 32, 2, 129, 163, 1, 97, 102, 4, 129, 162, 1, 97, 120,
    4, 1, 5, 161, 2, 65, 116]

def storedMain : Chunk where
  version := 0
  code := some #[112, 0, 0, 2, 0, 0, 80, 0, 113]
  constants := some #[Literal.constant (.function 0)]
  lines := none
  regions := some #[⟨some #[⟨9, noIndex, 0⟩], noIndex⟩]
  globals := some .empty
  explicit := some .empty
  errorTypes := none

def storedBody : Chunk :=
  { storedMain with code := some #[116], constants := none, regions := none }

def stored : Program :=
  ⟨some storedMain, #[some ⟨[0x66], 0, none, #[⟨[0x78], 0, 0, 1⟩], false, some storedBody⟩]⟩

theorem load_artifact : Artifact.load artifact = .ok stored := by
  have loaded : (Artifact.load artifact).toOption = some stored := by decide +kernel
  cases result : Artifact.load artifact with
  | error e =>
      rw [result] at loaded
      cases loaded
  | ok p =>
      rw [result] at loaded
      cases loaded
      rfl

def storedSetup : Setup where
  config := {}
  natives := Native.builtins.toArray
  loaded := ⟨0, stored⟩

end Sample

namespace Machine

/-- The machine whose next instruction lacks its operand goes on to a fault, not to a break. -/
theorem loaded_never_breaks_in_call :
    (runSteps Sample.storedSetup 3 ((new { heap := {}, files := .empty [] }).start
      Sample.storedMain)).2.step Sample.storedSetup ≠ .broken := by
  refine (loaded_never_breaks Sample.load_artifact ?_ ?_ rfl rfl rfl
    (new_wellFormed ?_) (reaches_iff_runSteps.mpr ⟨3, Prod.ext rfl rfl⟩)).2.1
  · intro f member
    cases List.mem_singleton.mp (List.mem_toArray.mp member)
    decide
  · rintro chunk (main | ⟨f, member, present⟩)
    · cases main
      decide
    · cases List.mem_singleton.mp (List.mem_toArray.mp member)
      cases present
      decide
  · exact Heap.closed_empty

end Machine

end TableMachine
