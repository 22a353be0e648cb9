import TableMachine.Proofs.Returning

/-! # What a step does to remembered results

Only a return remembers anything. Every other instruction, whether it completes or faults, and every
dispatch leaves all remembered results alone; asking for one counts the question and no more.
-/

namespace TableMachine

theorem lookup_filter_ne {α β : Type} [BEq α] [LawfulBEq α] [DecidableEq α] {k l : α}
    (other : l ≠ k) (entries : List (α × β)) :
    (entries.filter (·.1 ≠ k)).lookup l = entries.lookup l := by
  induction entries with
  | nil => rfl
  | cons entry rest ih =>
      obtain ⟨key, value⟩ := entry
      by_cases same : key = k
      · subst same
        have passed : (l == key) = false := beq_eq_false_iff_ne.mpr other
        simpa [List.lookup_cons, passed] using ih
      · simp only [List.filter_cons, same, ne_eq, not_false_eq_true, decide_true, if_true,
          List.lookup_cons]
        split
        · rfl
        · exact ih

namespace Memo

theorem find?_store (memo : Memo) (key other : Text) (v : Value) :
    (memo.store key v).find? other = if other = key then some v else memo.find? other := by
  unfold find? store
  by_cases same : other = key
  · simp [same]
  · have passed : (other == key) = false := beq_eq_false_iff_ne.mpr same
    rw [if_neg same, List.lookup_cons, passed]
    exact lookup_filter_ne same memo.results

@[simp] theorem find?_counted (memo : Memo) (key other : Text) :
    (memo.counted key).find? other = memo.find? other := by
  unfold counted
  split <;> rfl

end Memo

namespace Machine

/-- The result that a function remembers under a key. -/
def remembered? (m : Machine) (key : MemoKey) (text : Text) : Option Value :=
  (m.memo? key).bind (·.find? text)

/-- `m'` remembers what `m` does, and nothing else. -/
def RecallsAs (m m' : Machine) : Prop :=
  ∀ key text, m'.remembered? key text = m.remembered? key text

variable {s : Setup} {m m₁ m' : Machine} {frame f : Frame} {op : Opcode} {operand : Int}
  {i : Chunk.Instruction} {result : Value}

namespace RecallsAs

theorem refl (m : Machine) : m.RecallsAs m := fun _ _ => rfl

theorem trans (first : m.RecallsAs m₁) (second : m₁.RecallsAs m') : m.RecallsAs m' :=
  fun key text => (second key text).trans (first key text)

theorem of_memos (same : m'.memos = m.memos) : m.RecallsAs m' := by
  intro key text
  unfold remembered? memo?
  rw [same]

end RecallsAs

theorem memo?_setMemo (m : Machine) (key other : MemoKey) (memo : Memo) :
    (m.setMemo key memo).memo? other = if other = key then some memo else m.memo? other := by
  unfold memo? setMemo
  by_cases same : other = key
  · simp [same]
  · have passed : (other == key) = false := beq_eq_false_iff_ne.mpr same
    rw [if_neg same, List.lookup_cons, passed]
    exact lookup_filter_ne same m.memos

theorem remembered?_setMemo (m : Machine) (key other : MemoKey) (memo : Memo) (text : Text) :
    (m.setMemo key memo).remembered? other text =
      if other = key then memo.find? text else m.remembered? other text := by
  unfold remembered?
  rw [memo?_setMemo]
  split <;> rfl

theorem getD_find? (m : Machine) (key : MemoKey) (text : Text) :
    ((m.memo? key).getD {}).find? text = m.remembered? key text := by
  unfold remembered?
  cases m.memo? key with
  | none => rfl
  | some memo => rfl

theorem consult_fst (m : Machine) (key : MemoKey) (text : Text) :
    (m.consult key text).1 = m.remembered? key text := m.getD_find? key text

theorem consult_recalls (m : Machine) (key : MemoKey) (text : Text) :
    m.RecallsAs (m.consult key text).2 := by
  intro other text'
  show (m.setMemo key _).remembered? other text' = _
  rw [remembered?_setMemo]
  split
  · rename_i same
    rw [same, Memo.find?_counted, getD_find?]
  · rfl

/-! ## Returns -/

/-- Where the result of an activation is remembered, if it is. -/
def entryOf? (s : Setup) (f : Frame) : Option (MemoKey × Text) :=
  match f.routine, f.arguments with
  | some routine, some arguments =>
    (callKey? routine.function arguments).map fun text => (⟨s.loaded.unit, routine.position⟩, text)
  | _, _ => none

theorem remembered?_remember (m : Machine) (f : Frame) (key : MemoKey) (text : Text) :
    (m.remember s f result).remembered? key text =
      if entryOf? s f = some (key, text) then some result else m.remembered? key text := by
  unfold remember entryOf?
  cases f.routine with
  | none => simp
  | some routine =>
      cases f.arguments with
      | none => simp
      | some arguments =>
          cases keyed : callKey? routine.function arguments with
          | none => simp [keyed]
          | some text' =>
              simp only [keyed, Option.map_some, Option.some.injEq, Prod.mk.injEq]
              rw [remembered?_setMemo, Memo.find?_store, getD_find?]
              by_cases same : key = ⟨s.loaded.unit, routine.position⟩
              · subst same
                simp [eq_comm]
              · simp [same, Ne.symm same]

/-! ## Everything else -/

end Machine

/-- Whatever the instruction did, it left remembered results alone. -/
def Effect.Recalls (m : Machine) : Effect → Prop
  | done m' | raised _ m' | finished _ m' => m.RecallsAs m'
  | broken => True

theorem Effect.Recalls.after {e : Effect} {m m₁ : Machine} (rest : e.Recalls m₁)
    (first : m.RecallsAs m₁) : e.Recalls m := by
  cases e with
  | broken => trivial
  | done _ | raised _ _ | finished _ _ => exact first.trans rest

namespace Machine

variable {s : Setup} {m m' : Machine} {frame f : Frame} {op : Opcode} {operand : Int}
  {i : Chunk.Instruction} {result : Value}

theorem withOne_recalls {change : Value → Machine → Effect}
    (each : ∀ v, (change v (m.drop 1)).Recalls m) : (m.withOne change).Recalls m := by
  unfold withOne
  split
  · exact each _
  · trivial

theorem withTwo_recalls {change : Value → Value → Machine → Effect}
    (each : ∀ a b, (change a b (m.drop 2)).Recalls m) : (m.withTwo change).Recalls m := by
  unfold withTwo
  split
  · exact each _ _
  · trivial

theorem yield_recalls (r : Except Cause Value) : (m.yield_ r).Recalls m := by
  cases r with
  | ok v => exact .of_memos rfl
  | error cause => exact .refl m

theorem yieldOn_recalls (r : Except Cause (Value × Heap)) : (m.yieldOn r).Recalls m := by
  cases r with
  | ok answer => exact .of_memos rfl
  | error cause => exact .refl m

theorem callNative_recalls (index : Int) (arguments : List Value) :
    (m.callNative s index arguments).Recalls m := by
  unfold callNative
  split
  · exact .refl m
  · simp only
    split
    · exact .of_memos rfl
    · exact .of_memos rfl

theorem activate_recalls (routine : Routine) (arguments : List Value) :
    (m.activate s routine arguments).Recalls m := by
  unfold activate
  split
  · exact .refl m
  · split
    · rename_i entered
      unfold enter? at entered
      simp only [Option.bind_eq_bind, Option.bind_eq_some_iff] at entered
      obtain ⟨_, _, _, _, built⟩ := entered
      cases built
      exact .of_memos rfl
    · trivial

theorem callFunction_recalls (routine : Routine) (arguments : List Value) :
    (m.callFunction s routine arguments).Recalls m := by
  unfold callFunction
  split
  · exact activate_recalls routine arguments
  · rename_i text _
    have asked := m.consult_recalls ⟨s.loaded.unit, routine.position⟩ text
    split
    · rename_i found
      rw [found] at asked
      exact asked.trans (.of_memos rfl)
    · rename_i missed
      rw [missed] at asked
      exact (activate_recalls routine arguments).after asked

theorem call_recalls (count : Nat) : (m.call s count).Recalls m := by
  have dropped : m.RecallsAs (m.drop (count + 1)) := .of_memos rfl
  unfold call
  split
  · trivial
  · simp only
    split
    · exact (callNative_recalls _ _).after dropped
    · split
      · exact dropped
      · trivial
      · split
        · exact dropped
        · exact (callFunction_recalls _ _).after dropped
    · exact dropped

theorem storeGlobal?_recalls {slot : Int} {v : Value} (stored : m.storeGlobal? slot v = some m') :
    m.RecallsAs m' := by
  unfold storeGlobal? at stored
  obtain ⟨globals, _, rfl⟩ := Option.map_eq_some_iff.mp stored
  split <;> exact .of_memos rfl

theorem execute_recalls (plain : op ≠ .return_) : (m.execute s frame op operand).Recalls m := by
  have dropped (n : Nat) : m.RecallsAs (m.drop n) := .of_memos rfl
  unfold execute
  cases op with
  | nop | catch_ | endCatch => exact .refl m
  | pop => exact withOne_recalls fun _ => dropped 1
  | constant | loadGlobal =>
      simp only
      split <;> exact .of_memos rfl
  | loadLocal | jump8 | jump16 | jump32 | makeArray | popHandler => exact .of_memos rfl
  | storeLocal =>
      refine withOne_recalls fun v => ?_
      split
      · exact .of_memos rfl
      · trivial
  | storeGlobal =>
      refine withOne_recalls fun v => ?_
      split
      · rename_i stored
        exact (dropped 1).trans (storeGlobal?_recalls stored)
      · trivial
  | add | sub | mul | div | intDiv | mod | pow | equal | notEqual | greater | less | greaterEqual
  | lessEqual | in_ => exact withTwo_recalls fun _ _ => (yield_recalls _).after (dropped 2)
  | negate | arrayLength => exact withOne_recalls fun _ => (yield_recalls _).after (dropped 1)
  | not | throw | clone => exact withOne_recalls fun _ => .of_memos rfl
  | and | or => exact withTwo_recalls fun _ _ => .of_memos rfl
  | jumpIfFalse8 | jumpIfFalse16 | jumpIfFalse32 =>
      refine withOne_recalls fun v => ?_
      show m.RecallsAs (if _ then _ else _)
      split <;> exact .of_memos rfl
  | call => exact call_recalls _
  | return_ => exact absurd rfl plain
  | arrayElement => exact withTwo_recalls fun _ _ => (yieldOn_recalls _).after (dropped 2)
  | beginTry =>
      simp only [beginTry]
      split <;> exact .of_memos rfl
  | endTry =>
      simp only [endTry]
      split
      · exact .refl m
      · split <;> exact .of_memos rfl

/-- The main chunk has no arguments to remember its result by. -/
theorem returnFrom_root_recalls (top : m.frames.top? = some f) (root : f.routine = none) :
    (m.returnFrom s result).Recalls m := by
  unfold returnFrom
  simp only [top, remember, root]
  split <;> exact .of_memos rfl

/-- Whatever the step led to, remembered results are left alone. -/
def Outcome.Recalls (m : Machine) : Outcome → Prop
  | .next m' | .finished _ m' | .failed _ m' => m.RecallsAs m'
  | .broken => True

theorem raise_recalls {cause : Cause} {site : Int} (first : m.RecallsAs m') :
    (m'.raise frame cause site).Recalls m := by
  unfold raise
  split
  · rename_i caught
    obtain ⟨h, clause, older, owner, bound, _, _, _, rfl⟩ := dispatch_caught caught
    exact first.trans (.of_memos rfl)
  · exact first
  · trivial

/-- An instruction leaves remembered results alone unless it returns from a function. -/
theorem Fetches.recalls (fetches : m.Fetches frame i) (inv : m.Bracketed s)
    (going : i.op = .return_ → m.frames.height ≤ 1) :
    ((m.fetched frame i).execute s frame i.op i.operand).Recalls m := by
  have past : m.RecallsAs (m.fetched frame i) := .of_memos rfl
  by_cases return_ : i.op = .return_
  · have single := going return_
    have live := inv.live
    have place := fetches.top
    rw [Stack.top?_eq_get?] at place
    obtain ⟨g, top, continues⟩ := fetches.continues
    have root : g.routine = none := by
      rw [continues.routine]
      exact (inv.rooted _ frame place).mpr (by omega)
    simp only [return_, execute]
    split
    · refine Effect.Recalls.after (withOne_recalls fun v => ?_) past
      have dropped : (m.fetched frame i).RecallsAs ((m.fetched frame i).drop 1) := .of_memos rfl
      exact (returnFrom_root_recalls (m := (m.fetched frame i).drop 1) top root).after dropped
    · exact (returnFrom_root_recalls top root).after past
  · exact (execute_recalls return_).after past

/-- A step leaves remembered results alone unless a function returns. -/
theorem step_recalls (inv : m.Bracketed s)
    (going : ∀ f result, m.Ending f result → m.frames.height ≤ 1) : (m.step s).Recalls m := by
  have live := inv.live
  unfold step
  split
  · trivial
  · rename_i frame top
    split
    · rename_i end_
      have single := going frame .null (.runsOff top end_)
      unfold endOfCode
      rw [if_pos (by omega)]
      exact .of_memos rfl
    · split
      · exact .refl m
      · rename_i pointer
        simp only
        split
        · rename_i i instruction
          have fetches : m.Fetches frame i := ⟨top, Int.not_lt.mp pointer, instruction⟩
          have executed := fetches.recalls inv fun return_ => going frame _ (.returns fetches return_)
          unfold fetched at executed
          unfold perform
          simp only
          split
          · exact .of_memos rfl
          · split
            · rename_i done
              rw [done] at executed
              exact executed
            · rename_i raised
              rw [raised] at executed
              exact raise_recalls executed
            · rename_i finished
              rw [finished] at executed
              exact executed
            · trivial
        · exact .refl m

end Machine

end TableMachine
