import TableMachine.Proofs.MemoKeys
import TableMachine.Proofs.Memos

/-! # What is remembered, in terms of what has been returned

A machine keeps results across calls and across runs. Here its past is written down beside it, as the list
of activations that began and that returned, with the arguments they were called with. The main statement
is that the remembered results are exactly the latest ones of that list: whatever the function did to its
parameters in between, whatever other activations of it came and went, and whichever of them a fault
discarded.
-/

namespace TableMachine

/-! ## Histories -/

/-- Something that happened to an activation of the current run. -/
inductive Event where
  /-- It was begun by a call of a function with arguments. -/
  | began (serial : Nat) (function : MemoKey) (arguments : List Value)
  /-- It returned. -/
  | returned (serial : Nat) (result : Value)
deriving DecidableEq

/-- What happened, the latest first. -/
abbrev History := List Event

/-- A function returned a result that it had been called for with arguments. -/
structure Return where
  function : MemoKey
  arguments : List Value
  result : Value
deriving DecidableEq

namespace History

/-- The function and the arguments that the activation with a serial was begun with. Serials are given
anew in every run, so the latest counts. -/
def call? (serial : Nat) : History → Option (MemoKey × List Value)
  | [] => none
  | .began n function arguments :: older =>
    if n = serial then some (function, arguments) else call? serial older
  | .returned _ _ :: older => call? serial older

/-- The returns, the latest first. -/
def returns : History → List Return
  | [] => []
  | .began _ _ _ :: older => returns older
  | .returned serial result :: older =>
    match call? serial older with
    | some (function, arguments) => ⟨function, arguments, result⟩ :: returns older
    | none => returns older

/-- The result of the latest return of a function from a call with arguments as described. -/
def latest? (history : History) (function : MemoKey) (described : List Value → Bool) : Option Value :=
  (history.returns.find? fun r => r.function = function && described r.arguments).map (·.result)

end History

namespace Machine

/-- The arguments of the call that is the next instruction. -/
def argumentsOf (m : Machine) (i : Chunk.Instruction) : List Value :=
  (m.stack.drop 1).latest i.operand.toNat

/-- What a step from `m` to `m'` adds to the history. -/
inductive Notes (s : Setup) (m m' : Machine) : History → Prop where
  | begins {frame i index called} (executes : m.Executes s frame i m')
      (callee : m.stack.top? = some (.function index))
      (pushed : m'.frames = (m.fetched frame i).frames.push called) :
      Notes s m m' [.began called.serial ⟨s.loaded.unit, index.toNat⟩ (m.argumentsOf i)]
  | returns {frame result} (ending : m.Ending frame result) :
      Notes s m m' [.returned frame.serial result]
  | nothing (height : m'.frames.height ≤ m.frames.height)
      (going : ∀ frame result, ¬ m.Ending frame result) : Notes s m m' []

/-- A step, with what it adds to the history. -/
def NotedStep (s : Setup) (p q : Machine × History) : Prop :=
  Steps s p.1 q.1 ∧ ∃ events, Notes s p.1 q.1 events ∧ q.2 = events ++ p.2

/-- Any number of steps, with what they add to the history. -/
abbrev Passes (s : Setup) : Machine × History → Machine × History → Prop :=
  Relation.ReflTransGen (NotedStep s)

/-- The next step ends the run and leaves `m'`. -/
def EndsWith (s : Setup) (m m' : Machine) : Prop :=
  (∃ v, m.step s = .finished v m') ∨ ∃ fault last, m.step s = .failed fault last ∧ m' = last.settle

end Machine

/-- The programs that can be run, by the number they are loaded under. -/
abbrev Library := Nat → Program

/-- Whether a function of the library has its results remembered. -/
def Library.remembers (library : Library) (key : MemoKey) : Bool :=
  match (library key.unit).function? key.position with
  | some (some f) => f.cacheable
  | _ => false

/-- What a run of a program of the library needs. -/
structure Library.Loads (library : Library) (s : Setup) (main : Chunk) : Prop where
  program : s.loaded.program = library s.loaded.unit
  main : s.loaded.program.main = some main

theorem Library.Loads.remembers {library : Library} {s : Setup} {main : Chunk} {index : Int}
    {function : Function} (loads : library.Loads s main)
    (listed : s.loaded.program.function? index = some (some function)) :
    library.remembers ⟨s.loaded.unit, index.toNat⟩ = function.cacheable := by
  have same : s.loaded.program.function? index.toNat = some (some function) := by
    unfold Program.function? at listed ⊢
    split at listed
    · cases listed
    · rwa [if_neg (by omega)]
  unfold Library.remembers
  rw [← loads.program, same]

/-- `m` is at rest after some runs of programs of the library, in which `history` happened. -/
inductive Session (library : Library) : Machine → History → Prop where
  | new (host : Host) : Session library (.new host) []
  | define {m m' history slot v} (session : Session library m history)
      (defined : m.defineGlobal? slot v = some m') : Session library m' history
  | run {m m' rest s main before history} (session : Session library m before)
      (loads : library.Loads s main)
      (run : Machine.Passes s (m.start main, before) (m', history)) (ends : m'.EndsWith s rest) :
      Session library rest history

namespace Machine

variable {library : Library} {s : Setup} {m m' m₀ c d : Machine} {main : Chunk} {frame called f : Frame}
  {i : Chunk.Instruction} {result v : Value} {history before events : History} {index : Int}

/-! ## Every step has its note -/

theorem not_ending (fetches : m.Fetches frame i) (plain : i.op ≠ .return_) : ¬ m.Ending f result := by
  intro ending
  cases ending with
  | returns fetches' return_ =>
      cases fetches.top.symm.trans fetches'.top
      cases fetches.instruction.symm.trans fetches'.instruction
      exact plain return_
  | runsOff top end_ =>
      cases fetches.top.symm.trans top
      have inside := fetches.ip_lt
      omega

/-- A step from an activation that is about to return is the return. -/
theorem Ending.returned_of_steps (ending : m.Ending f result) (next : Steps s m m') :
    1 < m.frames.height ∧ Returned s m f result m' := by
  have nested : 1 < m.frames.height := by
    cases step_advances next with
    | @executes frame i _ executes =>
        have height : (m.fetched frame i).frames.height = m.frames.height := Stack.height_modifyTop _
        cases ending with
        | returns fetches return_ =>
            cases fetches.top.symm.trans executes.fetches.top
            cases fetches.instruction.symm.trans executes.fetches.instruction
            cases executes.completes with
            | works plain _ => exact absurd return_ plain
            | calls other _ | enters other _ => cases return_.symm.trans other
            | leaves other _ => rcases other with other | other <;> cases return_.symm.trans other
            | returns _ change => exact height ▸ change.nested
        | runsOff top end_ =>
            cases top.symm.trans executes.fetches.top
            have inside := executes.fetches.ip_lt
            omega
    | catches faults _ =>
        cases ending with
        | returns fetches return_ =>
            cases fetches.top.symm.trans faults.fetches.top
            cases fetches.instruction.symm.trans faults.fetches.instruction
            exact absurd return_ faults.ne_return
        | runsOff top end_ =>
            cases top.symm.trans faults.fetches.top
            have inside := faults.fetches.ip_lt
            omega
    | ends _ _ change => exact change.nested
  obtain ⟨d, returned⟩ := ending.returned s nested
  have same : m' = d := by
    have both := next.symm.trans returned.steps
    cases both
    rfl
  exact ⟨nested, same ▸ returned⟩

/-! ## Calls -/

theorem activate_pushed {routine : Routine} {arguments : List Value}
    (done : m.activate s routine arguments = .done m') (pushed : m'.frames = m.frames.push called) :
    called.routine = some routine ∧
      called.arguments = if routine.function.cacheable then some arguments else none := by
  unfold activate at done
  split at done
  · cases done
  · split at done
    · rename_i entered
      cases done
      unfold enter? at entered
      simp only [Option.bind_eq_bind, Option.bind_eq_some_iff] at entered
      obtain ⟨chunk, _, slots, _, built⟩ := entered
      cases built
      obtain ⟨rfl, _⟩ := List.cons.inj (congrArg Stack.items pushed)
      exact ⟨rfl, rfl⟩
    · cases done

/-- Work on values begins no activation. -/
theorem Works.not_pushed {taken put : Nat} (change : m.Works taken put m') :
    m'.frames ≠ m.frames.push called := by
  intro pushed
  obtain ⟨move, _, frames⟩ := change.frames
  have height := congrArg Stack.height (frames.symm.trans pushed)
  rw [Stack.height_modifyTop, Stack.height_push] at height
  omega

theorem callFunction_pushed {routine : Routine} {arguments : List Value}
    (done : m.callFunction s routine arguments = .done m')
    (pushed : m'.frames = m.frames.push called) :
    called.routine = some routine ∧
      called.arguments = if routine.function.cacheable then some arguments else none := by
  unfold callFunction at done
  split at done
  · exact activate_pushed done pushed
  · unfold consult at done
    simp only at done
    split at done
    · rename_i consulted
      obtain ⟨_, rfl⟩ := Prod.mk.inj consulted
      cases done
      exact absurd pushed ((setMemo_works m _ _).push _).not_pushed
    · rename_i consulted
      obtain ⟨_, rfl⟩ := Prod.mk.inj consulted
      exact activate_pushed done pushed

/-- What the activation of a call knows about the call. -/
theorem Executes.begins (executes : m.Executes s frame i m')
    (pushed : m'.frames = (m.fetched frame i).frames.push called) :
    ∃ index f, m.stack.top? = some (.function index) ∧
      s.loaded.program.function? index = some (some f) ∧ f.arity = i.operand.toNat ∧
      called.routine = some ⟨index.toNat, f⟩ ∧
      called.arguments = if f.cacheable then some (m.argumentsOf i) else none := by
  have call := (executes.activates pushed).1
  have done := executes.done
  simp only [call, execute] at done
  unfold Machine.call at done
  split at done
  · cases done
  · rename_i callee top
    simp only at done
    split at done
    · exact absurd pushed (callNative_done done).of_drop.not_pushed
    · rename_i index
      split at done
      · cases done
      · cases done
      · rename_i f listed
        split at done
        · cases done
        · rename_i arity
          obtain ⟨routine, arguments⟩ := callFunction_pushed done pushed
          exact ⟨index, f, top, listed, not_not.mp arity, routine, arguments⟩
    · cases done

/-- A step takes activations away or leaves them, unless it is a call that begins one. -/
theorem Advances.shrinks_or_begins (advances : m.Advances s m') (inv : m.Bracketed s) :
    (∃ mid, m.Shrinks mid ∧ m'.frames = mid.frames) ∨
      ∃ frame i called, m.Executes s frame i m' ∧ m'.frames = (m.fetched frame i).frames.push called := by
  cases advances with
  | @executes frame i _ executes =>
      have start := (fetched_works m frame i).shrinks inv
      have inv' := start.bracketed inv
      cases executes.completes with
      | works _ change => exact .inl ⟨m', start.trans (change.shrinks inv'), rfl⟩
      | calls _ change => exact .inr ⟨frame, i, _, executes, change.frames⟩
      | enters _ change => exact .inl ⟨_, start, change.frames⟩
      | leaves _ change => exact .inl ⟨m', start.trans (change.shrinks inv'), rfl⟩
      | returns _ change => exact .inl ⟨m', start.trans (change.shrinks inv'), rfl⟩
  | catches faults caught => exact .inl ⟨m', faults.caught_shrinks caught inv, rfl⟩
  | ends _ _ change => exact .inl ⟨m', change.shrinks inv, rfl⟩

theorem exists_notes (next : Steps s m m') (inv : m.Bracketed s) : ∃ events, Notes s m m' events := by
  by_cases ending : ∃ frame result, m.Ending frame result
  · obtain ⟨frame, result, ending⟩ := ending
    exact ⟨_, .returns ending⟩
  · rcases (step_advances next).shrinks_or_begins inv with ⟨mid, shrinks, frames⟩ |
      ⟨frame, i, called, executes, pushed⟩
    · refine ⟨_, .nothing ?_ fun frame result ends => ending ⟨frame, result, ends⟩⟩
      rw [frames]
      exact shrinks.height_le
    · obtain ⟨index, _, callee, _⟩ := executes.begins pushed
      exact ⟨_, .begins executes callee pushed⟩

/-! ## The invariant -/

theorem latest?_returned (serial : Nat) (result : Value) (history : History) (key : MemoKey)
    (described : List Value → Bool) {function : MemoKey} {arguments : List Value}
    (call : history.call? serial = some (function, arguments)) :
    History.latest? (.returned serial result :: history) key described =
      if function = key ∧ described arguments = true then some result
      else history.latest? key described := by
  unfold History.latest?
  simp only [History.returns, call, List.find?_cons]
  by_cases match_ : function = key ∧ described arguments = true
  · simp [match_]
  · rw [if_neg match_]
    split
    · rename_i found
      simp only [Bool.and_eq_true, decide_eq_true_eq] at found
      exact absurd found match_
    · rfl

/-- The machine remembers exactly the latest results of the history. -/
def Recounts (library : Library) (m : Machine) (history : History) : Prop :=
  ∀ key text, m.remembered? key text =
    if library.remembers key then history.latest? key fun arguments => Memo.key? arguments = some text
    else none

/-- Every live activation of a function knows the call that began it. -/
structure Tracks (library : Library) (s : Setup) (m : Machine) (history : History) : Prop where
  calls : ∀ f ∈ m.frames.items, ∀ routine, f.routine = some routine → ∃ arguments,
    history.call? f.serial = some (⟨s.loaded.unit, routine.position⟩, arguments) ∧
    f.arguments = (if routine.function.cacheable then some arguments else none) ∧
    library.remembers ⟨s.loaded.unit, routine.position⟩ = routine.function.cacheable
  results : m.Recounts library history

theorem Recounts.of_recalls (recounts : m.Recounts library history) (same : m.RecallsAs m') :
    m'.Recounts library history :=
  fun key text => (same key text).trans (recounts key text)

theorem Shrinks.mem_frames {g : Frame} (shrinks : m.Shrinks m') (member : g ∈ m'.frames.items) :
    ∃ f ∈ m.frames.items, f.Continues g := by
  obtain ⟨p, found⟩ := Stack.mem_iff_get?.mp member
  obtain ⟨f, before, continues⟩ := shrinks.frames p g found
  exact ⟨f, Stack.mem_iff_get?.mpr ⟨p, before⟩, continues⟩

/-- Activations that go on keep what they know. -/
theorem Tracks.of_continues (tracks : m.Tracks library s history)
    (frames : ∀ g ∈ m'.frames.items, ∃ f ∈ m.frames.items, f.Continues g) (same : m.RecallsAs m') :
    m'.Tracks library s history where
  calls := by
    intro g member routine named
    obtain ⟨f, earlier, continues⟩ := frames g member
    rw [continues.serial, continues.arguments]
    exact tracks.calls f earlier routine (continues.routine.symm.trans named)
  results := tracks.results.of_recalls same

theorem entryOf?_eq_some_iff (tracks : m.Tracks library s history) (member : f ∈ m.frames.items)
    {routine : Routine} {arguments : List Value} {key : MemoKey} {text : Text}
    (named : f.routine = some routine)
    (call : history.call? f.serial = some (⟨s.loaded.unit, routine.position⟩, arguments)) :
    entryOf? s f = some (key, text) ↔ library.remembers key = true ∧
      key = ⟨s.loaded.unit, routine.position⟩ ∧ Memo.key? arguments = some text := by
  obtain ⟨arguments', call', kept, cacheable⟩ := tracks.calls f member routine named
  cases call.symm.trans call'
  unfold entryOf? callKey?
  rw [named, kept]
  cases flag : routine.function.cacheable with
  | false =>
      simp only [Bool.false_eq_true, if_false, reduceCtorEq, false_iff]
      rintro ⟨remembers, rfl, _⟩
      rw [cacheable, flag] at remembers
      cases remembers
  | true =>
      simp only [flag, if_true, Option.map_eq_some_iff, Prod.mk.injEq, exists_eq_right_right]
      constructor
      · rintro ⟨keyed, rfl⟩
        exact ⟨cacheable.trans flag, rfl, keyed⟩
      · rintro ⟨_, rfl, keyed⟩
        exact ⟨keyed, rfl⟩

/-- An activation that returns to another one was begun by a call. -/
theorem Tracks.begun_by_call (tracks : m.Tracks library s history) (ending : m.Ending f result)
    (nested : 1 < m.frames.height) (inv : m.Bracketed s) :
    f ∈ m.frames.items ∧ ∃ routine arguments, f.routine = some routine ∧
      history.call? f.serial = some (⟨s.loaded.unit, routine.position⟩, arguments) := by
  have place := ending.top
  rw [Stack.top?_eq_get?] at place
  have member : f ∈ m.frames.items := Stack.mem_iff_get?.mpr ⟨_, place⟩
  have inner : f.routine ≠ none := fun root => by
    have bottom := (inv.rooted _ f place).mp root
    omega
  obtain ⟨routine, named⟩ := Option.ne_none_iff_exists'.mp inner
  obtain ⟨arguments, call, _⟩ := tracks.calls f member routine named
  exact ⟨member, routine, arguments, named, call⟩

theorem Notes.tracks (notes : Notes s m m' events) (next : Steps s m m') (inv : m.Bracketed s)
    (numbers : m.Numbered) (loads : library.Loads s main) (tracks : m.Tracks library s history) :
    m'.Tracks library s (events ++ history) := by
  cases notes with
  | @begins frame i index called executes callee pushed =>
      obtain ⟨index', f, callee', listed, _, named, arguments⟩ := executes.begins pushed
      cases callee.symm.trans callee'
      obtain ⟨call, change⟩ := executes.activates pushed
      have fresh : called.serial = m.activations + 1 := change.serial
      have shrinks := (fetched_works m frame i).shrinks inv
      refine ⟨?_, ?_⟩
      · intro g member routine named'
        rw [pushed, Stack.items_push] at member
        rcases List.mem_cons.mp member with rfl | member
        · cases named.symm.trans named'
          exact ⟨_, if_pos rfl, arguments, loads.remembers listed⟩
        · obtain ⟨g₀, earlier, continues⟩ := shrinks.mem_frames member
          obtain ⟨arguments', call', rest⟩ :=
            tracks.calls g₀ earlier routine (continues.routine.symm.trans named')
          obtain ⟨p, place⟩ := Stack.mem_iff_get?.mp earlier
          have old := numbers.begun p g₀ place
          refine ⟨arguments', ?_, ?_⟩
          · show (if _ then _ else _) = _
            rw [if_neg (by have := continues.serial; omega), continues.serial]
            exact call'
          · rw [continues.arguments]
            exact rest
      · have executed := executes.fetches.recalls inv fun return_ => by cases call.symm.trans return_
        rw [executes.done] at executed
        exact tracks.results.of_recalls executed
  | @returns f result ending =>
      obtain ⟨nested, returned⟩ := ending.returned_of_steps next
      refine ⟨?_, ?_⟩
      · intro g member routine named
        rw [returned.frames] at member
        exact tracks.calls g (List.mem_of_mem_drop member) routine named
      · obtain ⟨member, routine, arguments, named, call⟩ := tracks.begun_by_call ending nested inv
        intro key text
        have same : (m.remember s f result).RecallsAs m' := .of_memos returned.memos
        rw [same key text, remembered?_remember, tracks.results key text]
        show _ = if _ then History.latest? (.returned f.serial result :: history) _ _ else _
        rw [latest?_returned _ _ _ _ _ call]
        simp only [entryOf?_eq_some_iff tracks member named call, decide_eq_true_eq]
        by_cases remembers : library.remembers key = true
        · simp only [remembers, true_and, if_true, eq_comm (a := key)]
        · simp only [remembers, Bool.false_eq_true, false_and, if_false]
  | nothing height going =>
      have recalls := step_recalls inv fun f result ending => absurd ending (going f result)
      unfold Steps at next
      rw [next] at recalls
      rcases (step_advances next).shrinks_or_begins inv with ⟨mid, shrinks, frames⟩ |
        ⟨frame, i, called, _, pushed⟩
      · refine tracks.of_continues (fun g member => ?_) recalls
        rw [frames] at member
        exact shrinks.mem_frames member
      · have higher := congrArg Stack.height pushed
        have same : (m.fetched frame i).frames.height = m.frames.height := Stack.height_modifyTop _
        rw [Stack.height_push] at higher
        omega

/-! ## Runs and sessions -/

theorem reaches_of_passes {p q : Machine × History} (run : Passes s p q) : Reaches s p.1 q.1 := by
  induction run with
  | refl => exact .refl
  | tail _ step reached => exact reached.tail step.1

theorem start_tracks (s : Setup) (main : Chunk) (known : m₀.Recounts library before) :
    (m₀.start main).Tracks library s before where
  calls := by
    intro f member routine named
    cases List.mem_singleton.mp member
    cases named
  results := known.of_recalls (.of_memos rfl)

theorem tracks_of_passes {q : Machine × History} (run : Passes s (m₀.start main, before) q)
    (loads : library.Loads s main) (known : m₀.Recounts library before) : q.1.Tracks library s q.2 := by
  induction run with
  | refl => exact start_tracks s main known
  | tail run step tracks =>
      obtain ⟨next, events, notes, same⟩ := step
      rw [same]
      exact notes.tracks next (reaches_bracketed (reaches_of_passes run))
        (reaches_numbered (reaches_of_passes run)) loads tracks

/-- The end of a run comes with no return of a function. -/
theorem EndsWith.recalls (ends : m.EndsWith s m') (inv : m.Bracketed s) : m.RecallsAs m' := by
  have recalls := step_recalls inv fun f result ending => by
    by_contra nested
    obtain ⟨d, returned⟩ := ending.returned s (Nat.lt_of_not_le nested)
    have next : m.step s = .next d := returned.steps
    rcases ends with ⟨v, finished⟩ | ⟨fault, last, failed, _⟩
    · cases next.symm.trans finished
    · cases next.symm.trans failed
  rcases ends with ⟨v, finished⟩ | ⟨fault, last, failed, rfl⟩
  · rw [finished] at recalls
    exact recalls
  · rw [failed] at recalls
    exact RecallsAs.trans recalls (.of_memos rfl)

theorem recounts_of_session (session : Session library m history) : m.Recounts library history := by
  induction session with
  | new host =>
      intro key text
      simp [remembered?, memo?, Machine.new, History.latest?, History.returns]
  | define _ defined known =>
      unfold defineGlobal? at defined
      split at defined
      · cases defined
      · exact known.of_recalls (storeGlobal?_recalls defined)
  | run _ loads run ends known =>
      have tracks := tracks_of_passes run loads known
      exact tracks.results.of_recalls (ends.recalls (reaches_bracketed (reaches_of_passes run)))

/-! ## Hits -/

/-- The next instruction calls a function of the program with as many arguments as it has parameters. -/
structure Calls (s : Setup) (m : Machine) (frame : Frame) (i : Chunk.Instruction) (index : Int)
    (function : Function) : Prop where
  fetches : m.Fetches frame i
  call : i.op = .call
  enough : i.operand.toNat + 1 ≤ m.stack.height
  callee : m.stack.top? = some (.function index)
  listed : s.loaded.program.function? index = some (some function)
  arity : function.arity = i.operand.toNat

/-- The called function finds a remembered result for the arguments of the call. -/
def Hits (s : Setup) (m : Machine) (i : Chunk.Instruction) (index : Int) (function : Function)
    (v : Value) : Prop :=
  ∃ text, callKey? function (m.argumentsOf i) = some text ∧
    (m.consult ⟨s.loaded.unit, index.toNat⟩ text).1 = some v

theorem callKey?_eq_some_iff {function : Function} {arguments : List Value} {text : Text} :
    callKey? function arguments = some text ↔
      function.cacheable = true ∧ Memo.key? arguments = some text := by
  unfold callKey?
  split
  · rename_i cacheable
    simp [cacheable]
  · rename_i plain
    simp [plain]

/-- A call that finds a result asks for it and puts it in the place of the operands. -/
theorem Calls.steps_of_found {function : Function} {text : Text}
    (calls : m.Calls s frame i index function)
    (keyed : callKey? function (m.argumentsOf i) = some text)
    (found : (m.consult ⟨s.loaded.unit, index.toNat⟩ text).1 = some v) :
    Steps s m ((((m.fetched frame i).drop (i.operand.toNat + 1)).consult
      ⟨s.loaded.unit, index.toNat⟩ text).2.push v) := by
  let base := (m.fetched frame i).drop (i.operand.toNat + 1)
  have called : base.callFunction s ⟨index.toNat, function⟩ (m.argumentsOf i) =
      .done ((base.consult ⟨s.loaded.unit, index.toNat⟩ text).2.push v) := by
    have found' : base.consult ⟨s.loaded.unit, index.toNat⟩ text =
        (some v, (base.consult ⟨s.loaded.unit, index.toNat⟩ text).2) := Prod.ext found rfl
    unfold callFunction
    simp only [keyed]
    rw [found']
  have done : (m.fetched frame i).execute s frame i.op i.operand =
      .done ((base.consult ⟨s.loaded.unit, index.toNat⟩ text).2.push v) := by
    have callee : (m.fetched frame i).stack.top? = some (.function index) := calls.callee
    rw [← called, calls.call]
    unfold execute Machine.call
    simp only [callee, calls.listed, calls.arity, ne_eq, not_true_eq_false, if_false]
    rfl
  have enough : needed i.op i.operand ≤ m.stack.height := by
    rw [calls.call]
    exact calls.enough
  exact Executes.steps ⟨calls.fetches, enough, done⟩

/-- A hit puts the result in the place of the operands and begins no activation. -/
theorem Calls.steps_of_hits {function : Function} (calls : m.Calls s frame i index function)
    (hits : m.Hits s i index function v) :
    ∃ d, Steps s m d ∧ d.stack = (m.stack.drop (i.operand.toNat + 1)).push v ∧
      d.frames = (m.fetched frame i).frames := by
  obtain ⟨text, keyed, found⟩ := hits
  exact ⟨_, calls.steps_of_found keyed found, rfl, rfl⟩

theorem latest?_isSome {r : Return} {key : MemoKey} (described : List Value → Bool)
    (member : r ∈ history.returns) (same : r.function = key) (match_ : described r.arguments = true) :
    ∃ v, history.latest? key described = some v := by
  have found : (history.returns.find? fun r => r.function = key && described r.arguments).isSome := by
    rw [List.find?_isSome]
    exact ⟨r, member, by simp [same, match_]⟩
  obtain ⟨latest, found⟩ := Option.isSome_iff_exists.mp found
  exact ⟨latest.result, by rw [History.latest?, found]; rfl⟩

/-! ## Activations that never return -/

/-- The fault of the next instruction is caught and an activation discarded by that. -/
def Discards (s : Setup) (m : Machine) (serial : Nat) (m' : Machine) : Prop :=
  (∃ frame i cause raised, m.Faults s frame i cause raised ∧
      raised.dispatch cause frame.ip = .caught m') ∧
    (∃ f ∈ m.frames.items, f.serial = serial) ∧ ∀ f ∈ m'.frames.items, f.serial ≠ serial

/-- An activation that began and is no longer live never returns. -/
structure Gone (m : Machine) (serial : Nat) : Prop where
  begun : serial ≤ m.activations
  dead : ∀ f ∈ m.frames.items, f.serial ≠ serial

theorem Discards.steps {serial : Nat} (discards : m.Discards s serial m') : Steps s m m' := by
  obtain ⟨⟨frame, i, cause, raised, faults, caught⟩, _⟩ := discards
  exact faults.steps caught

theorem Discards.recalls {serial : Nat} (discards : m.Discards s serial m') (inv : m.Bracketed s) :
    m.RecallsAs m' := by
  obtain ⟨⟨frame, i, cause, raised, faults, caught⟩, _⟩ := discards
  have executed := faults.fetches.recalls inv fun return_ => absurd return_ faults.ne_return
  rw [faults.raised] at executed
  obtain ⟨h, clause, older, owner, bound, _, _, _, rfl⟩ := dispatch_caught caught
  exact RecallsAs.trans executed (.of_memos rfl)

theorem Discards.gone {serial : Nat} (discards : m.Discards s serial m') (inv : m.Bracketed s)
    (numbers : m.Numbered) : m'.Gone serial := by
  obtain ⟨⟨frame, i, cause, raised, faults, caught⟩, ⟨f, member, rfl⟩, dead⟩ := discards
  obtain ⟨p, place⟩ := Stack.mem_iff_get?.mp member
  refine ⟨?_, dead⟩
  rw [(faults.caught_shrinks caught inv).activations]
  exact numbers.begun p f place

theorem Gone.step {serial : Nat} (gone : m.Gone serial) (next : Steps s m m') (inv : m.Bracketed s) :
    m'.Gone serial := by
  have begun := gone.begun
  rcases (step_advances next).cases inv with shrinks | ⟨mid, called, shrinks, change⟩ |
    ⟨frame, i, region, _, _, change⟩
  · refine ⟨by rwa [shrinks.activations], ?_⟩
    intro g member
    obtain ⟨f, earlier, continues⟩ := shrinks.mem_frames member
    rw [continues.serial]
    exact gone.dead f earlier
  · have before := shrinks.activations
    have after := change.activations
    refine ⟨by omega, ?_⟩
    intro g member
    rw [change.frames, Stack.items_push] at member
    rcases List.mem_cons.mp member with rfl | member
    · have fresh := change.serial
      omega
    · obtain ⟨f, earlier, continues⟩ := shrinks.mem_frames member
      rw [continues.serial]
      exact gone.dead f earlier
  · refine ⟨by rwa [change.activations], ?_⟩
    intro g member
    rw [change.frames] at member
    obtain ⟨f, earlier, continues⟩ := ((fetched_works m frame i).shrinks inv).mem_frames member
    rw [continues.serial]
    exact gone.dead f earlier

theorem Gone.passes {serial : Nat} {q : Machine × History} (gone : m.Gone serial)
    (reached : Reaches s (m₀.start main) m) (run : Passes s (m, before) q) :
    q.1.Gone serial ∧ ∃ events, q.2 = events ++ before ∧ ∀ result, .returned serial result ∉ events := by
  induction run with
  | refl => exact ⟨gone, [], rfl, fun _ => List.not_mem_nil⟩
  | tail run step ih =>
      obtain ⟨gone, events, same, none_⟩ := ih
      obtain ⟨next, later, notes, same'⟩ := step
      have inv := reaches_bracketed (reached.trans (reaches_of_passes run))
      refine ⟨gone.step next inv, later ++ events, ?_, ?_⟩
      · rw [same', same, List.append_assoc]
      · intro result member
        rcases List.mem_append.mp member with new | old
        · cases notes with
          | begins => cases List.mem_singleton.mp new
          | returns ending =>
              cases List.mem_singleton.mp new
              have place := ending.top
              rw [Stack.top?_eq_get?] at place
              exact gone.dead _ (Stack.mem_iff_get?.mpr ⟨_, place⟩) rfl
          | nothing => cases new
        · exact none_ result old

/-! ## The main statement -/

/-- What is remembered in a machine of a session, by what has happened. -/
structure Memoizes (library : Library) (s : Setup) (c : Machine) (history : History) : Prop where
  /-- Whatever step comes next, the history goes on. -/
  noted : ∀ d, Steps s c d → ∃ later, NotedStep s (c, history) (d, later)
  /-- The entries are the latest results of the calls with their keys. -/
  entries : c.Recounts library history
  /-- A hit gives the result of the latest return from a call with equal arguments, and no activation
  begins. -/
  hit : ∀ frame i index function v, c.Calls s frame i index function →
    c.Hits s i index function v →
    history.latest? ⟨s.loaded.unit, index.toNat⟩
        (Value.pairwise (Value.equal c.heap) (c.argumentsOf i)) = some v ∧
      ∃ d, Steps s c d ∧ d.stack = (c.stack.drop (i.operand.toNat + 1)).push v ∧
        d.frames = (c.fetched frame i).frames
  /-- A call whose arguments equal keyable ones that the function has returned from is a hit. -/
  once : ∀ frame i index function, c.Calls s frame i index function → function.cacheable = true →
    ∀ r ∈ history.returns, r.function = ⟨s.loaded.unit, index.toNat⟩ →
      (∀ v ∈ r.arguments, Memo.Keyable v) →
      Value.pairwise (Value.equal c.heap) r.arguments (c.argumentsOf i) = true →
      ∃ v, c.Hits s i index function v
  /-- An activation that a caught fault discards leaves no entry, then or later. -/
  discarded : ∀ serial d, c.Discards s serial d → c.RecallsAs d ∧
    ∀ e later, Passes s (d, history) (e, later) →
      ∃ events, later = events ++ history ∧ ∀ result, .returned serial result ∉ events
  /-- Neither does one that the end of the run discards. -/
  ended : ∀ rest, c.EndsWith s rest → c.RecallsAs rest
  /-- A return from a call with an argument that has no key leaves no entry. -/
  unkeyable : ∀ f result d function arguments, c.Ending f result → Steps s c d →
    history.call? f.serial = some (function, arguments) →
    ¬ (∀ v ∈ arguments, Memo.Keyable v) → c.RecallsAs d

/-- The calls described by equality are those described by the key. -/
theorem latest?_pairwise {arguments : List Value} {text : Text} (heap : Heap) (key : MemoKey)
    (keyed : Memo.key? arguments = some text) :
    history.latest? key (Value.pairwise (Value.equal heap) arguments) =
      history.latest? key fun others => Memo.key? others = some text := by
  congr 1
  funext others
  rw [Bool.eq_iff_iff, decide_eq_true_eq, Memo.key?_eq_iff heap keyed]

theorem Tracks.hits_iff (tracks : c.Tracks library s history) (loads : library.Loads s main)
    {function : Function} (listed : s.loaded.program.function? index = some (some function)) :
    c.Hits s i index function v ↔ function.cacheable = true ∧
      ∃ text, Memo.key? (c.argumentsOf i) = some text ∧
        history.latest? ⟨s.loaded.unit, index.toNat⟩ (fun others => Memo.key? others = some text) =
          some v := by
  unfold Hits
  simp only [callKey?_eq_some_iff, consult_fst, and_assoc, exists_and_left]
  refine and_congr_right fun cacheable => exists_congr fun text => and_congr_right fun _ => ?_
  rw [tracks.results, loads.remembers listed, if_pos cacheable]

/-- Nothing is remembered that was not returned, and nothing that was returned is lost: in every machine
that a run passes, after whatever other runs on the same machine, the remembered results are those of the
latest returns. -/
theorem memos_recount_returns (session : Session library m₀ before) (loads : library.Loads s main)
    (run : Passes s (m₀.start main, before) (c, history)) : c.Memoizes library s history := by
  have tracks := tracks_of_passes run loads (recounts_of_session session)
  have reached := reaches_of_passes run
  have inv := reaches_bracketed reached
  have numbers := reaches_numbered reached
  refine ⟨?_, tracks.results, ?_, ?_, ?_, fun rest ends => ends.recalls inv, ?_⟩
  · intro d next
    obtain ⟨events, notes⟩ := exists_notes next inv
    exact ⟨events ++ history, next, events, notes, rfl⟩
  · intro frame i index function v calls hits
    refine ⟨?_, calls.steps_of_hits hits⟩
    obtain ⟨_, text, keyed, found⟩ := (tracks.hits_iff loads calls.listed).mp hits
    rw [latest?_pairwise c.heap _ keyed]
    exact found
  · intro frame i index function calls cacheable r member same keyable equal
    obtain ⟨text, keyed⟩ := Option.isSome_iff_exists.mp (Memo.key?_isSome_iff.mpr keyable)
    obtain ⟨v, found⟩ := latest?_isSome (fun others => Memo.key? others = some text) member same
      (decide_eq_true keyed)
    exact ⟨v, (tracks.hits_iff loads calls.listed).mpr
      ⟨cacheable, text, (Memo.key?_eq_iff c.heap keyed).mpr equal, found⟩⟩
  · intro serial d discards
    refine ⟨discards.recalls inv, fun e later passes => ?_⟩
    exact ((discards.gone inv numbers).passes (reached.tail discards.steps) passes).2
  · intro f result d function arguments ending next call unkeyable key text
    obtain ⟨nested, returned⟩ := ending.returned_of_steps next
    obtain ⟨member, routine, arguments', named, call'⟩ := tracks.begun_by_call ending nested inv
    cases call.symm.trans call'
    have same : (c.remember s f result).RecallsAs d := .of_memos returned.memos
    rw [same, remembered?_remember, if_neg]
    rw [entryOf?_eq_some_iff tracks member named call]
    rintro ⟨_, _, keyed⟩
    exact unkeyable (Memo.key?_isSome_iff.mp (Option.isSome_iff_exists.mpr ⟨text, keyed⟩))

/-- The second call of an errand, after the first one caught a fault and wrote over its argument. -/
theorem memos_recount_returns_in_errand :
    ∃ d, Steps Errand.setup (Errand.after 15) d ∧ d.frames.height = 1 ∧
      d.stack.items = [.string [0x79], .string [0x79], .bool true] := by
  let begun : History := [.began 1 ⟨0, 0⟩ [.string [0x78]]]
  let returned : History := .returned 1 (.string [0x79]) :: begun
  have plain : ∀ n ∈ [0, 1, 2, 3, 5, 6, 7, 8, 9, 10, 11, 13, 14], ∀ history,
      NotedStep Errand.setup (Errand.after n, history) (Errand.after (n + 1), history) := by
    intro n member history
    simp only [List.mem_cons, List.not_mem_nil, or_false] at member
    rcases member with rfl | rfl | rfl | rfl | rfl | rfl | rfl | rfl | rfl | rfl | rfl | rfl | rfl <;>
      exact ⟨rfl, [], .nothing (Nat.le_of_eq rfl)
        fun _ _ => not_ending ⟨rfl, by decide, rfl⟩ (by decide), rfl⟩
  have call : NotedStep Errand.setup (Errand.after 4, []) (Errand.after 5, begun) :=
    ⟨rfl, _, .begins ⟨⟨rfl, by decide, rfl⟩, by decide, rfl⟩ rfl rfl, rfl⟩
  have return_ : NotedStep Errand.setup (Errand.after 12, begun) (Errand.after 13, returned) :=
    ⟨rfl, _, .returns (.returns ⟨rfl, by decide, rfl⟩ rfl), rfl⟩
  have run : Passes Errand.setup (Errand.fresh.start Errand.main, []) (Errand.after 15, returned) := by
    refine .head (plain 0 (by decide) _) <| .head (plain 1 (by decide) _) <|
      .head (plain 2 (by decide) _) <| .head (plain 3 (by decide) _) <| .head call <|
      .head (plain 5 (by decide) _) <| .head (plain 6 (by decide) _) <|
      .head (plain 7 (by decide) _) <| .head (plain 8 (by decide) _) <|
      .head (plain 9 (by decide) _) <| .head (plain 10 (by decide) _) <|
      .head (plain 11 (by decide) _) <| .head return_ <|
      .head (plain 13 (by decide) _) <| .head (plain 14 (by decide) _) .refl
  have session : Session (fun _ => Errand.setup.loaded.program) Errand.fresh [] := .new _
  have recounts := memos_recount_returns session ⟨rfl, rfl⟩ run
  have calls : (Errand.after 15).Calls Errand.setup _ _ 0 _ :=
    ⟨⟨rfl, by decide, rfl⟩, rfl, by decide, rfl, rfl, rfl⟩
  obtain ⟨v, hits⟩ := recounts.once _ _ _ _ calls rfl ⟨⟨0, 0⟩, [.string [0x78]], .string [0x79]⟩
    List.mem_cons_self rfl (by simp [Memo.Keyable, Value.isHashable]) rfl
  obtain ⟨latest, d, next, stack, frames⟩ := recounts.hit _ _ _ _ v calls hits
  cases latest
  exact ⟨d, next, congrArg Stack.height frames, congrArg Stack.items stack⟩

end Machine

end TableMachine
