import TableMachine.Proofs.Replaying

/-! # Remembering changes no value

A call that is answered from memory skips what the function would have done. The run of the cleared program
does all of it: its state is related to that of the run that remembers by `Follows`, in which every
remembered result and every live activation that will be remembered has its call in the run of the cleared
program. Where one run finds a result, the other replays the call that the result comes from.

A key is made of the arguments only. That suffices where nothing else that a function sees differs between
two calls with one key, which `Repeatable` says.
-/

namespace TableMachine

namespace Machine

variable {s : Setup} {x₀ c c' u u' m m' a b e : Machine} {frame f called : Frame} {i : Chunk.Instruction}
  {index : Int} {function : Function} {text : Text} {key : MemoKey} {v result : Value} {level n fuel : Nat}

/-! ## Calls that may be answered from memory -/

/-- The next instruction calls a function whose result is remembered under `text`. -/
structure Asks (s : Setup) (m : Machine) (frame : Frame) (i : Chunk.Instruction) (index : Int)
    (function : Function) (text : Text) : Prop where
  calls : m.Calls s frame i index function
  keyed : callKey? function (m.argumentsOf i) = some text

/-- Under the cleared program, every call of the function with this key that is reached from `x₀` finds the
same scalar in a slot of an activation below it. -/
def Shared (s : Setup) (x₀ : Machine) (index : Int) (function : Function) (text : Text) (depth : Nat)
    (slot : Int) : Prop :=
  ∀ {a₁ a₂ frame₁ frame₂ i₁ i₂}, Reaches s.cleared x₀ a₁ → Reaches s.cleared x₀ a₂ →
    a₁.Asks s frame₁ i₁ index function text → a₂.Asks s frame₂ i₂ index function text →
    a₂.sees depth slot = a₁.sees depth slot ∧ (a₁.sees depth slot).isScalar = true

/-- Under the cleared program, what such a function does from `x₀` on depends on its key alone. -/
structure Repeatable (s : Setup) (x₀ : Machine) : Prop where
  /-- Two calls with one key begin with the same slots, captured ones included. -/
  slots : ∀ {a₁ a₂ frame₁ frame₂ i₁ i₂ index function text}, Reaches s.cleared x₀ a₁ →
    Reaches s.cleared x₀ a₂ → a₁.Asks s frame₁ i₁ index function text →
    a₂.Asks s frame₂ i₂ index function text →
    a₂.newSlots? function (a₂.argumentsOf i₂) = a₁.newSlots? function (a₁.argumentsOf i₁)
  /-- What they begin with are scalars. -/
  scalars : ∀ {a frame i index function text slots}, Reaches s.cleared x₀ a →
    a.Asks s frame i index function text → a.newSlots? function (a.argumentsOf i) = some slots →
    ∀ v ∈ slots, v.isScalar = true
  /-- Until the activation ends, every instruction keeps to what was put on the machine since, and to what
  is the same below every call with the key. -/
  confined : ∀ {a b c frame i index function text}, Reaches s.cleared x₀ a →
    a.Asks s frame i index function text → Steps s.cleared a b →
    Relation.ReflTransGen (StepsAbove s.cleared a.frames.height) b c →
    c.Confined s a.frames.height (a.stack.drop (i.operand.toNat + 1)).height
      (Shared s x₀ index function text)

/-! ## Machines that differ in marks and memos only -/

theorem fields_of_bare {f g : Frame} (same : f.bare = g.bare) :
    f.chunk = g.chunk ∧ f.ip = g.ip ∧ f.stackStart = g.stackStart := by
  simp only [Frame.bare, Frame.mk.injEq] at same
  obtain ⟨_, chunk, ip, start, _⟩ := same
  exact ⟨chunk, ip, start⟩

theorem frames_height_of_bare (same : c.bare = u.bare) : c.frames.height = u.frames.height := by
  have frames := congrArg (fun m => m.frames.height) same
  exact frames

theorem top_of_bare (same : c.bare = u.bare) (top : c.frames.top? = some frame) :
    ∃ frame', u.frames.top? = some frame' ∧ frame'.bare = frame.bare := by
  have frames := congrArg (fun m => m.frames.top?) same
  simp only [frames_bare, Stack.top?_map, top, Option.map_some] at frames
  obtain ⟨frame', found, equal⟩ := Option.map_eq_some_iff.mp frames.symm
  exact ⟨frame', found, equal⟩

theorem Fetches.of_bare (fetches : c.Fetches frame i) (same : c.bare = u.bare) :
    ∃ frame', u.Fetches frame' i ∧ frame'.bare = frame.bare := by
  obtain ⟨frame', top, equal⟩ := top_of_bare same fetches.top
  obtain ⟨chunk, ip, _⟩ := fields_of_bare equal
  refine ⟨frame', ⟨top, ?_, ?_⟩, equal⟩
  · rw [ip]
    exact fetches.pointer
  · rw [ip, chunk]
    exact fetches.instruction

theorem stack_of_bare (same : c.bare = u.bare) : c.stack = u.stack := congrArg (fun m => m.stack) same

theorem Calls.of_bare (calls : c.Calls s frame i index function) (same : c.bare = u.bare) :
    ∃ frame', u.Calls s frame' i index function ∧ frame'.bare = frame.bare := by
  obtain ⟨frame', fetches, equal⟩ := calls.fetches.of_bare same
  have stack := stack_of_bare same
  exact ⟨frame', ⟨fetches, calls.call, stack ▸ calls.enough, stack ▸ calls.callee, calls.listed,
    calls.arity⟩, equal⟩

theorem argumentsOf_of_bare (same : c.bare = u.bare) (i : Chunk.Instruction) :
    u.argumentsOf i = c.argumentsOf i := by
  unfold argumentsOf
  rw [stack_of_bare same]

theorem Asks.of_bare (asks : c.Asks s frame i index function text) (same : c.bare = u.bare) :
    ∃ frame', u.Asks s frame' i index function text ∧ frame'.bare = frame.bare := by
  obtain ⟨frame', calls, equal⟩ := asks.calls.of_bare same
  exact ⟨frame', ⟨calls, by rw [argumentsOf_of_bare same]; exact asks.keyed⟩, equal⟩

theorem Ending.of_bare (ending : c.Ending f result) (same : c.bare = u.bare) :
    ∃ f', u.Ending f' result := by
  cases ending with
  | @returns i fetches return_ =>
      obtain ⟨f', fetches', equal⟩ := fetches.of_bare same
      have start := (fields_of_bare equal).2.2
      have value : c.ownTop f = u.ownTop f' := by
        unfold ownTop
        rw [start, stack_of_bare same]
      exact ⟨f', value ▸ .returns fetches' return_⟩
  | runsOff top end_ =>
      obtain ⟨f', top', equal⟩ := top_of_bare same top
      obtain ⟨chunk, ip, _⟩ := fields_of_bare equal
      exact ⟨f', .runsOff top' (by rwa [ip, chunk])⟩

theorem ground_bare : (m.ground frame i).bare = m.bare.ground frame.bare i := by
  unfold ground
  rw [drop_bare, fetched_bare]

theorem graft_result_bare (g : Machine) : (g.graft ⟨[v], [], n⟩).bare = (g.push v).bare := by
  have frames : Stack.ofList g.frames.items = g.frames := Stack.ext rfl
  have stack : Stack.ofList ([v] ++ g.stack.items) = g.stack.push v := Stack.ext rfl
  simp only [graft, stack, List.map_nil, List.nil_append, frames]
  rfl

/-! ## The relation -/

/-- Some call asked for a result of `key` under `text`, and the activation at `level` that it began is
still live in `m`. -/
def Answers (s : Setup) (x₀ : Machine) (key : MemoKey) (text : Text) (level : Nat) (m : Machine) : Prop :=
  ∃ a b frame i index function, Reaches s.cleared x₀ a ∧ a.Asks s frame i index function text ∧
    key = ⟨s.loaded.unit, index.toNat⟩ ∧ a.frames.height = level ∧ Steps s.cleared a b ∧
    Relation.ReflTransGen (StepsAbove s.cleared level) b m

theorem Answers.steps (answers : Answers s x₀ key text level m)
    (way : Relation.ReflTransGen (StepsAbove s.cleared level) m m') :
    Answers s x₀ key text level m' := by
  obtain ⟨a, b, frame, i, index, function, reached, asks, named, height, begins, before⟩ := answers
  exact ⟨a, b, frame, i, index, function, reached, asks, named, height, begins, before.trans way⟩

/-- `c` is a state of the run that remembers, and `u` one of the run of the cleared program. -/
structure Follows (s : Setup) (x₀ c u : Machine) : Prop where
  same : c.bare = u.bare
  reached : Reaches s x₀ c
  cleared : Reaches s.cleared x₀ u
  /-- Every remembered result was about to be returned by an activation of its function. -/
  entries : ∀ key text v, c.remembered? key text = some v → ∃ e f level,
    Answers s x₀ key text level e ∧ e.Ending f v ∧ e.frames.height = level + 1
  /-- Every live activation whose result will be remembered is live in both. -/
  live : ∀ p f key text, c.frames.get? p = some f → entryOf? s f = some (key, text) →
    Answers s x₀ key text p u

theorem entryOf?_of_continues {g : Frame} (continues : f.Continues g) : entryOf? s g = entryOf? s f := by
  unfold entryOf?
  rw [continues.routine, continues.arguments]

theorem function?_inj {p : Program} {index index' : Int} {entry entry' : Option Function}
    (first : p.function? index = some entry) (second : p.function? index' = some entry')
    (same : index.toNat = index'.toNat) : index = index' ∧ entry = entry' := by
  have low : ∀ {index : Int} {entry}, p.function? index = some entry → 0 ≤ index := by
    intro index entry found
    unfold Program.function? at found
    split at found
    · cases found
    · omega
  have equal : index = index' := by
    have := low first
    have := low second
    omega
  subst equal
  exact ⟨rfl, Option.some.inj (first.symm.trans second)⟩

/-! ## A call that is answered from memory -/

variable {m₀ : Machine} {main : Chunk}

/-- The run of the cleared program replays a call that is answered from memory. -/
theorem Follows.hit (follows : Follows s (m₀.start main) c u) (repeatable : Repeatable s (m₀.start main))
    (unlimited : s.config.maxFrames ≤ 0) (calls : c.Calls s frame i index function)
    (hits : c.Hits s i index function v) :
    ∃ c' b u', Steps s c c' ∧ Steps s.cleared u b ∧ Reaches s.cleared b u' ∧
      Follows s (m₀.start main) c' u' := by
  obtain ⟨text, keyed, found⟩ := hits
  obtain ⟨e, f, level, ⟨a, b, frame₁, i₁, index₁, function₁, reached, asks, named, rfl, begins, way⟩,
    ending, last⟩ := follows.entries _ text v ((consult_fst c _ text).symm.trans found)
  obtain ⟨rfl, same⟩ := function?_inj calls.listed asks.calls.listed (MemoKey.mk.inj named).2
  cases same
  obtain ⟨frame', asks', equal⟩ := Asks.of_bare ⟨calls, keyed⟩ follows.same
  have inv := reaches_bracketed follows.cleared
  have agree : u.AgreeOn (Shared s (m₀.start main) index function text) a := by
    intro depth slot shared
    exact (shared reached follows.cleared asks asks').1
  have plain : ∀ depth slot, Shared s (m₀.start main) index function text depth slot →
      (a.sees depth slot).isScalar = true := by
    intro depth slot shared
    exact (shared reached reached asks asks).2
  obtain ⟨b', n, next, replay⟩ := asks.calls.replays asks'.calls (reaches_bracketed reached) inv unlimited
    (repeatable.slots reached follows.cleared asks asks') (fun _ => repeatable.scalars reached asks)
    agree plain begins way (fun _ => repeatable.confined reached asks begins) ending last
  have reaches : Reaches s.cleared b' ((u.ground frame' i).graft ⟨[v], [], n⟩) :=
    Relation.ReflTransGen.mono (r := StepsAbove s.cleared 0) (p := Steps s.cleared)
      (fun _ _ step => step.1) _ _ (replay 0 inv.live).2
  have next' := calls.steps_of_found keyed found
  refine ⟨_, b', _, next', next, reaches, ?_, follows.reached.tail next',
    (follows.cleared.tail next).trans reaches, ?_, ?_⟩
  · rw [graft_result_bare, push_bare, push_bare, consult_bare]
    show (c.ground frame i).bare.push v = _
    rw [ground_bare, ground_bare, follows.same, equal]
  · intro key text' v' entry
    refine follows.entries key text' v' ?_
    rw [← entry]
    exact (consult_recalls ((c.fetched frame i).drop (i.operand.toNat + 1)) _ text key text').symm
  · intro p g key text' place entry
    obtain ⟨f, before, continues⟩ :=
      ((fetched_works c frame i).shrinks (reaches_bracketed follows.reached)).frames p g place
    rw [entryOf?_of_continues continues] at entry
    have low := Stack.lt_height_of_get? before
    rw [frames_height_of_bare follows.same] at low
    obtain ⟨high, rest⟩ := replay p low
    exact (follows.live p f key text' before entry).steps (rest.head ⟨next, high⟩)

/-! ## Every other step -/

/-- A call that begins an activation whose result will be remembered asks for that result. -/
theorem Executes.asks (executes : c.Executes s frame i c')
    (pushed : c'.frames = (c.fetched frame i).frames.push called)
    (entry : entryOf? s called = some (key, text)) :
    ∃ index function, c.Asks s frame i index function text ∧ key = ⟨s.loaded.unit, index.toNat⟩ := by
  have call := (executes.activates pushed).1
  have enough := executes.enough
  rw [call] at enough
  obtain ⟨index, function, callee, listed, arity, routine, arguments⟩ := executes.begins pushed
  unfold entryOf? at entry
  rw [routine, arguments] at entry
  cases flag : function.cacheable with
  | false =>
      rw [flag] at entry
      cases entry
  | true =>
      rw [flag] at entry
      obtain ⟨text', keyed, same⟩ := Option.map_eq_some_iff.mp entry
      obtain ⟨rfl, rfl⟩ := Prod.mk.inj same
      exact ⟨index, function, ⟨⟨executes.fetches, call, enough, callee, listed, arity⟩, keyed⟩, rfl⟩

/-- A step keeps what is remembered, and a return adds what it returns. -/
theorem Follows.entries_step (follows : Follows s (m₀.start main) c u) (next : Steps s c c')
    (entry : c'.remembered? key text = some v) : ∃ e f level,
      Answers s (m₀.start main) key text level e ∧ e.Ending f v ∧ e.frames.height = level + 1 := by
  have inv := reaches_bracketed follows.reached
  have heights := frames_height_of_bare follows.same
  by_cases returns : ∃ f result, c.Ending f result
  · obtain ⟨f, result, ending⟩ := returns
    obtain ⟨nested, returned⟩ := ending.returned_of_steps next
    have recalls : (c.remember s f result).RecallsAs c' := .of_memos returned.memos
    rw [recalls key text, remembered?_remember] at entry
    split at entry
    · rename_i own
      cases entry
      have place := ending.top
      rw [Stack.top?_eq_get?] at place
      obtain ⟨f', ending'⟩ := ending.of_bare follows.same
      exact ⟨u, f', _, follows.live _ f key text place own, ending', by omega⟩
    · exact follows.entries key text v entry
  · have recalls := step_recalls inv fun f result ending => absurd ⟨f, result, ending⟩ returns
    rw [show c.step s = .next c' from next] at recalls
    exact follows.entries key text v ((recalls key text).symm.trans entry)

/-- A step keeps the activations that will be remembered, and a call adds one. -/
theorem Follows.live_step (follows : Follows s (m₀.start main) c u) (next : Steps s c c')
    (next' : Steps s.cleared u u') (same : c'.bare = u'.bare) {p : Nat} {g : Frame}
    (place : c'.frames.get? p = some g) (entry : entryOf? s g = some (key, text)) :
    Answers s (m₀.start main) key text p u' := by
  have inv := reaches_bracketed follows.reached
  have alive := Stack.lt_height_of_get? place
  rw [frames_height_of_bare same] at alive
  -- An activation that goes on has its call in both runs already.
  have older : ∀ f, c.frames.get? p = some f → f.Continues g →
      Answers s (m₀.start main) key text p u' := by
    intro f before continues
    rw [entryOf?_of_continues continues] at entry
    exact (follows.live p f key text before entry).steps (.single ⟨next', alive⟩)
  rcases (step_advances next).shrinks_or_begins inv with ⟨mid, shrinks, frames⟩ |
    ⟨frame, i, called, executes, pushed⟩
  · rw [frames] at place
    obtain ⟨f, before, continues⟩ := shrinks.frames p g place
    exact older f before continues
  · rw [pushed] at place
    rcases Stack.get?_push_cases place with ⟨_, before⟩ | ⟨position, rfl⟩
    · obtain ⟨f, earlier, continues⟩ := ((fetched_works c frame i).shrinks inv).frames p g before
      exact older f earlier continues
    · obtain ⟨index, function, asks, named⟩ := executes.asks pushed entry
      obtain ⟨frame', asks', _⟩ := asks.of_bare follows.same
      refine ⟨u, u', frame', i, index, function, follows.cleared, asks', named, ?_, next', .refl⟩
      rw [position, ← frames_height_of_bare follows.same]
      exact (Stack.height_modifyTop _).symm

/-- Where no call is answered from memory, both runs take the same step. -/
theorem Follows.step (follows : Follows s (m₀.start main) c u) (unanswered : c.Unanswered s)
    (next : Steps s.cleared u u') : ∃ c', Steps s c c' ∧ Follows s (m₀.start main) c' u' := by
  obtain ⟨c', next', same⟩ : ∃ c', Steps s c c' ∧ c'.bare = u'.bare := by
    have outcome := step_cleared follows.same unanswered
    rw [show u.step s.cleared = .next u' from next] at outcome
    unfold Steps
    cases stepped : c.step s <;> rw [stepped] at outcome <;> injection outcome
    rename_i same
    exact ⟨_, rfl, same⟩
  exact ⟨c', next', same, follows.reached.tail next', follows.cleared.tail next,
    fun _ _ _ => follows.entries_step next', fun _ _ _ _ => follows.live_step next' next same⟩

/-! ## Runs -/

theorem runSteps_of_le {fuel' : Nat} (ends : runSteps s fuel m = (.value v, m')) (le : fuel ≤ fuel') :
    runSteps s fuel' m = (.value v, m') := by
  induction fuel generalizing m fuel' with
  | zero => cases ends
  | succ fuel ih =>
      obtain ⟨more, rfl⟩ : ∃ more, fuel' = more + 1 := ⟨fuel' - 1, by omega⟩
      rw [runSteps] at ends ⊢
      split at ends
      · exact ih ends (by omega)
      · exact ends
      · cases ends
      · cases ends

theorem runSteps_of_steps (next : Steps s m m') (ends : runSteps s fuel m = (.value v, e)) :
    ∃ rest, fuel = rest + 1 ∧ runSteps s rest m' = (.value v, e) := by
  cases fuel with
  | zero => cases ends
  | succ rest =>
      rw [runSteps, show m.step s = .next m' from next] at ends
      exact ⟨rest, rfl, ends⟩

theorem runSteps_of_reaches (run : Reaches s m m') (ends : runSteps s fuel m = (.value v, e)) :
    ∃ rest ≤ fuel, runSteps s rest m' = (.value v, e) := by
  induction run with
  | refl => exact ⟨fuel, Nat.le_refl _, ends⟩
  | tail _ next ih =>
      obtain ⟨left, le, before⟩ := ih
      obtain ⟨rest, rfl, after⟩ := runSteps_of_steps next before
      exact ⟨rest, by omega, after⟩

/-- The run that remembers ends with the same value, and in no more steps. -/
theorem Follows.runs (follows : Follows s (m₀.start main) c u) (repeatable : Repeatable s (m₀.start main))
    (unlimited : s.config.maxFrames ≤ 0) (ends : runSteps s.cleared fuel u = (.value v, m)) :
    ∃ m', runSteps s fuel c = (.value v, m') ∧ m'.bare = m.bare := by
  induction fuel using Nat.strong_induction_on generalizing c u with
  | _ fuel ih =>
      by_cases answered : ∃ frame i index function v, c.Calls s frame i index function ∧
          c.Hits s i index function v
      · obtain ⟨frame, i, index, function, w, calls, hits⟩ := answered
        obtain ⟨c', b, u', next, begins, rest, follows'⟩ := follows.hit repeatable unlimited calls hits
        obtain ⟨fuel, rfl, begun⟩ := runSteps_of_steps begins ends
        obtain ⟨left, le, replayed⟩ := runSteps_of_reaches rest begun
        obtain ⟨m', ends', same⟩ := ih left (by omega) follows' replayed
        refine ⟨m', ?_, same⟩
        rw [runSteps, show c.step s = .next c' from next]
        exact runSteps_of_le ends' le
      · have unanswered : c.Unanswered s := fun frame i index function w calls hits =>
          answered ⟨frame, i, index, function, w, calls, hits⟩
        cases fuel with
        | zero => cases ends
        | succ fuel =>
            rw [runSteps] at ends
            split at ends
            · rename_i next
              obtain ⟨c', next', follows'⟩ := follows.step unanswered next
              obtain ⟨m', ends', same⟩ := ih fuel (Nat.lt_succ_self _) follows' ends
              refine ⟨m', ?_, same⟩
              rw [runSteps, show c.step s = .next c' from next']
              exact ends'
            · rename_i w last finished
              have outcome := step_cleared follows.same unanswered
              rw [finished] at outcome
              cases ends
              cases stepped : c.step s <;> rw [stepped] at outcome <;> injection outcome
              rename_i value same
              refine ⟨_, ?_, same⟩
              rw [runSteps, stepped, value]
            · cases ends
            · cases ends

theorem start_follows (s : Setup) (main : Chunk) (forgetful : m₀.memos = []) :
    Follows s (m₀.start main) (m₀.start main) (m₀.start main) where
  same := rfl
  reached := .refl
  cleared := .refl
  entries := by
    intro key text v entry
    have memos : (m₀.start main).memos = [] := forgetful
    unfold remembered? memo? at entry
    rw [memos] at entry
    cases entry
  live := by
    intro p f key text place entry
    have member := Stack.mem_iff_get?.mpr ⟨p, place⟩
    cases List.mem_singleton.mp member
    cases entry

/-! ## Checking a run

A run that ends goes through finitely many states, so that `Repeatable` can be checked by going through them.
-/

/-- The next instruction with its activation. -/
def fetch? (m : Machine) : Option (Frame × Chunk.Instruction) := do
  let frame ← m.frames.top?
  if frame.ip < 0 then none else (frame.chunk.instruction? frame.ip.toNat).map (frame, ·)

theorem Fetches.fetch?_eq (fetches : m.Fetches frame i) : m.fetch? = some (frame, i) := by
  have pointer : ¬ frame.ip < 0 := by
    have := fetches.pointer
    omega
  simp [fetch?, fetches.top, fetches.instruction, pointer]

/-- Whether an instruction keeps to what `Confined` allows when nothing below is shared. -/
def keepsTo (s : Setup) (level base : Nat) (m : Machine) (i : Chunk.Instruction) : Bool :=
  i.op.isLocal && (i.op == .return_ || base + needed i.op i.operand ≤ m.stack.height) &&
    (i.op != .call ||
      match m.stack.top? with
      | some (.native _) => false
      | some (.function index) =>
        match s.loaded.program.function? index with
        | some (some function) =>
          function.captures.all fun c => c.depth < 0 || c.depth.toNat + level < m.frames.height
        | _ => true
      | _ => true)

def isConfined (s : Setup) (level base : Nat) (m : Machine) : Bool :=
  m.fetch?.all fun next => m.keepsTo s level base next.2

theorem confined_of_isConfined {base : Nat} {shared : Nat → Int → Prop}
    (checked : m.isConfined s level base = true) : m.Confined s level base shared := by
  have keeps : ∀ {frame i}, m.Fetches frame i → m.keepsTo s level base i = true := by
    intro frame i fetches
    rw [isConfined, fetches.fetch?_eq] at checked
    exact checked
  simp only [keepsTo, Bool.and_eq_true] at keeps
  refine ⟨fun frame i fetches => (keeps fetches).1.1, ?_, ?_, ?_⟩
  · rintro p below ⟨frame, i, fetches, other, taken, _⟩
    have enough := (keeps fetches).1.2
    simp only [Bool.or_eq_true, beq_iff_eq, other, decide_eq_true_eq, false_or] at enough
    omega
  · intro frame i index fetches call top
    have callee := (keeps fetches).2
    simp [call, top] at callee
  · intro frame i index function fetches call top listed c member
    have callee := (keeps fetches).2
    simp only [call, top, listed, bne_self_eq_false, Bool.false_or] at callee
    have inside := Array.all_eq_true_iff_forall_mem.mp callee c member
    simp only [Bool.or_eq_true, decide_eq_true_eq] at inside
    exact inside.imp_right Or.inl

/-- Whether `p` holds from `m` on, for as long as `live` does, and that in fewer than `fuel` steps. -/
def throughout (s : Setup) (live p : Machine → Bool) : (fuel : Nat) → Machine → Bool
  | 0, _ => false
  | fuel + 1, m =>
    p m &&
      match m.step s with
      | .next m' => !live m' || throughout s live p fuel m'
      | _ => true

theorem holds_of_throughout {live p : Machine → Bool} (checked : throughout s live p fuel m = true)
    (way : Relation.ReflTransGen (fun m m' => Steps s m m' ∧ live m' = true) m m') : p m' = true := by
  induction way using Relation.ReflTransGen.head_induction_on generalizing fuel with
  | refl =>
      cases fuel with
      | zero => cases checked
      | succ fuel => exact (Bool.and_eq_true_iff.mp checked).1
  | head first _ ih =>
      cases fuel with
      | zero => cases checked
      | succ fuel =>
          have rest := (Bool.and_eq_true_iff.mp checked).2
          obtain ⟨next, alive⟩ := first
          rw [show Machine.step s _ = .next _ from next] at rest
          simp only [alive, Bool.not_true, Bool.false_or] at rest
          exact ih rest

/-- The call that comes next, if its result is remembered. -/
def ask? (s : Setup) (m : Machine) : Option (Chunk.Instruction × Int × Function × Text) :=
  match m.fetch?, m.stack.top? with
  | some (_, i), some (.function index) =>
    match s.loaded.program.function? index with
    | some (some function) =>
      if i.op = .call ∧ i.operand.toNat + 1 ≤ m.stack.height ∧ function.arity = i.operand.toNat then
        (callKey? function (m.argumentsOf i)).map fun text => (i, index, function, text)
      else none
    | _ => none
  | _, _ => none

theorem Asks.ask?_eq (asks : m.Asks s frame i index function text) :
    m.ask? s = some (i, index, function, text) := by
  obtain ⟨⟨fetches, call, enough, callee, listed, arity⟩, keyed⟩ := asks
  simp [ask?, fetches.fetch?_eq, callee, listed, call, enough, arity, keyed]

/-- Whether a call of the function with this key would begin with these slots. -/
def beginsWith (s : Setup) (index : Int) (function : Function) (text : Text)
    (slots : Option (Array Value)) (m : Machine) : Bool :=
  (m.ask? s).all fun (i, index', _, text') =>
    index' ≠ index || text' ≠ text || m.newSlots? function (m.argumentsOf i) = slots

/-- Whether the call that comes next in `a` is what `Repeatable` asks for in the run from `x₀` on. -/
def isRepeated (s : Setup) (x₀ : Machine) (fuel : Nat) (a : Machine) : Bool :=
  (a.ask? s).all fun (i, index, function, text) =>
    let slots := a.newSlots? function (a.argumentsOf i)
    throughout s.cleared (fun _ => true) (beginsWith s index function text slots) fuel x₀ &&
      slots.all (fun slots => slots.all Value.isScalar) &&
      match a.step s.cleared with
      | .next b => throughout s.cleared (a.frames.height < ·.frames.height)
          (isConfined s a.frames.height (a.stack.drop (i.operand.toNat + 1)).height) fuel b
      | _ => true

/-- Whether the run from `x₀` on ends within `fuel` steps and can be seen to be `Repeatable`. -/
def isRepeatable (s : Setup) (fuel : Nat) (x₀ : Machine) : Bool :=
  throughout s.cleared (fun _ => true) (isRepeated s x₀ fuel) fuel x₀

theorem holds_of_reaches {p : Machine → Bool} (checked : throughout s (fun _ => true) p fuel m = true)
    (run : Reaches s m m') : p m' = true :=
  holds_of_throughout checked (Relation.ReflTransGen.mono (fun _ _ next => ⟨next, rfl⟩) _ _ run)

theorem repeatable_of_isRepeatable (checked : isRepeatable s fuel x₀ = true) : Repeatable s x₀ := by
  refine ⟨?_, ?_, ?_⟩
  · intro a₁ a₂ frame₁ frame₂ i₁ i₂ index function text reached reached' asks asks'
    have repeated := holds_of_reaches checked reached
    simp only [isRepeated, asks.ask?_eq, Option.all_some, Bool.and_eq_true] at repeated
    have alike := holds_of_reaches repeated.1.1 reached'
    simpa [beginsWith, asks'.ask?_eq] using alike
  · intro a frame i index function text slots reached asks begins v member
    have repeated := holds_of_reaches checked reached
    simp only [isRepeated, asks.ask?_eq, Option.all_some, Bool.and_eq_true, begins] at repeated
    exact Array.all_eq_true_iff_forall_mem.mp repeated.1.2 v member
  · intro a b c frame i index function text reached asks next way
    have repeated := holds_of_reaches checked reached
    simp only [isRepeated, asks.ask?_eq, Option.all_some, Bool.and_eq_true,
      show a.step s.cleared = .next b from next] at repeated
    refine confined_of_isConfined (holds_of_throughout repeated.2 ?_)
    exact Relation.ReflTransGen.mono (fun _ _ step => ⟨step.1, decide_eq_true step.2⟩) _ _ way

/-- A program that ends with a value when nothing is remembered ends with the same value, written with the
same text, when the results of the marked functions are. -/
theorem remembering_keeps_values (forgetful : m₀.memos = []) (unlimited : s.config.maxFrames ≤ 0)
    (loads : s.loaded.program.main = some main) (repeatable : Repeatable s (m₀.start main))
    (ends : run s.cleared fuel m₀ = (.value v, m)) :
    ∃ m', run s fuel m₀ = (.value v, m') ∧ m'.host = m.host ∧ v.render m'.heap = v.render m.heap := by
  have loads' : s.cleared.loaded.program.main = some main := loads
  unfold run at ends ⊢
  simp only [loads'] at ends
  simp only [loads]
  obtain ⟨m', ends', same⟩ := (start_follows s main forgetful).runs repeatable unlimited ends
  have host : m'.host = m.host := congrArg (fun m => m.host) same
  refine ⟨m', ends', host, ?_⟩
  unfold heap
  rw [host]

end Machine

/-! ## A refrain

The main chunk calls a marked function twice with one text and joins what it returns. The function calls
another one, which copies the text from its caller, and adds a mark to it.
-/

namespace Refrain

def main : Chunk :=
  { Chunk.empty with
    code := some #[0x02, 0, 0, 0x02, 1, 0, 0x50, 1, 0x02, 0, 0, 0x02, 1, 0, 0x50, 1, 0x20, 0x51]
    constants := some #[Literal.constant (.string "a"), Literal.constant (.function 0)] }

def line : Chunk :=
  { Chunk.empty with
    code := some #[0x02, 0, 0, 0x50, 0, 0x02, 1, 0, 0x20, 0x51]
    constants := some #[Literal.constant (.function 1), Literal.constant (.string "!")] }

def word : Chunk :=
  { Chunk.empty with code := some #[0x10, 0, 0, 0x51] }

def setup : Setup where
  config := {}
  natives := #[]
  loaded := ⟨0, ⟨some main, #[some ⟨"f", 1, none, #[], true, some line⟩,
    some ⟨"g", 0, none, #[⟨"x", 0, 0, 0⟩], false, some word⟩]⟩⟩

def fresh : Machine := .new { heap := {}, files := .empty [] }

end Refrain

/-- The value that a run ended with. -/
def Result.value? : Result → Option Value
  | value v => some v
  | _ => none

theorem Result.eq_of_value? {r : Result} {v : Value} (found : r.value? = some v) : r = .value v := by
  cases r <;> cases found
  rfl

namespace Machine

/-- The second of two calls is answered from memory. -/
theorem remembering_keeps_values_in_refrain :
    ∃ m m', run Refrain.setup.cleared 22 Refrain.fresh = (.value (.string "a!a!"), m) ∧
      run Refrain.setup 22 Refrain.fresh = (.value (.string "a!a!"), m') ∧ m'.host = m.host ∧
      (Value.string "a!a!").render m'.heap = (Value.string "a!a!").render m.heap := by
  have ends : run Refrain.setup.cleared 22 Refrain.fresh =
      (.value (.string "a!a!"), (run Refrain.setup.cleared 22 Refrain.fresh).2) :=
    Prod.ext (Result.eq_of_value? (by decide +kernel)) rfl
  have checked : isRepeatable Refrain.setup 22 (Refrain.fresh.start Refrain.main) = true := by
    decide +kernel
  have repeatable := repeatable_of_isRepeatable checked
  exact ⟨_, _, ends, (remembering_keeps_values rfl (Int.le_refl 0) rfl repeatable ends).choose_spec⟩

end Machine

/-! ## What a key leaves out

Where a function sees more than its key tells, the run that remembers ends with another value.
-/

/-- The instructions from an offset on, at most `count` of them. -/
def Chunk.instructionsFrom (c : Chunk) : (count offset : Nat) → List Chunk.Instruction
  | 0, _ => []
  | count + 1, offset =>
    match c.instruction? offset with
    | none => []
    | some i => i :: c.instructionsFrom count (offset + i.op.length)

/-- Whether the functions are made of local instructions only. -/
def Program.isLocal (p : Program) : Bool :=
  p.functions.all fun entry => entry.all fun f => f.chunk.all fun c =>
    (c.instructionsFrom c.code.entries.size 0).all (·.op.isLocal)

namespace Unkeyed

/-- Stores a text, calls the first function, stores another text and returns what a second call gives. -/
def retelling : Chunk :=
  { Chunk.empty with
    code := some #[0x02, 0, 0, 0x11, 0, 0, 0x02, 2, 0, 0x50, 0, 0x01, 0x02, 1, 0, 0x11, 0, 0, 0x02, 2, 0,
      0x50, 0, 0x51]
    constants := some #[Literal.constant (.string "a"), Literal.constant (.string "b"),
      Literal.constant (.function 0)] }

def readsLocal : Chunk :=
  { Chunk.empty with code := some #[0x10, 0, 0, 0x51] }

/-- The function copies a variable of its caller. -/
def captured : Program :=
  ⟨some retelling, #[some ⟨"f", 0, none, #[⟨"x", 0, 0, 0⟩], true, some readsLocal⟩]⟩

/-- The function calls another one, which copies a variable of the function's caller. -/
def capturedBelow : Program :=
  ⟨some retelling,
    #[some ⟨"f", 0, none, #[], true, some { Chunk.empty with
        code := some #[0x02, 0, 0, 0x50, 0, 0x51]
        constants := some #[Literal.constant (.function 1)] }⟩,
      some ⟨"g", 0, none, #[⟨"x", 1, 0, 0⟩], false, some readsLocal⟩]⟩

/-- The function takes a value that its caller left on the stack. -/
def taken : Program :=
  ⟨some { Chunk.empty with
      code := some #[0x02, 0, 0, 0x02, 2, 0, 0x50, 0, 0x01, 0x02, 1, 0, 0x02, 2, 0, 0x50, 0, 0x01, 0x51]
      constants := retelling.constants },
    #[some ⟨"f", 0, none, #[], true, some { Chunk.empty with code := some #[0x01, 0x51] }⟩]⟩

/-- The function gives the inverse of its argument, which is zero at first and then zero with the other sign. -/
def zeros : Program :=
  ⟨some { Chunk.empty with
      code := some #[0x02, 0, 0, 0x02, 1, 0, 0x50, 1, 0x01, 0x02, 0, 0, 0x27, 0x02, 1, 0, 0x50, 1, 0x51]
      constants := some #[Literal.constant (.number .zero), Literal.constant (.function 0)] },
    #[some ⟨"f", 1, none, #[], true, some { Chunk.empty with
        code := some #[0x10, 0, 0, 0x02, 0, 0, 0x26, 0x51]
        constants := some #[Literal.constant (.number (.ofInt (-1)))] }⟩]⟩

def setup (p : Program) : Setup where
  config := {}
  natives := #[]
  loaded := ⟨0, p⟩

/-- The text of the value that a run ended with. -/
def text? (ended : Result × Machine) : Option Text :=
  ended.1.value?.map fun v => v.render ended.2.heap

/-- If the run of the cleared program ends with a value, the run that remembers ends with one of the same
text. -/
def KeepsText (s : Setup) (m : Machine) : Prop :=
  ∀ fuel text, text? (m.run s.cleared fuel) = some text → ∃ fuel', text? (m.run s fuel') = some text

variable {s : Setup} {m : Machine} {fuel fuel' : Nat} {text text' : Text}

theorem text?_eq_of_le (ends : text? (m.run s fuel) = some text) (le : fuel ≤ fuel') :
    text? (m.run s fuel') = some text := by
  obtain ⟨v, found, rendered⟩ := Option.map_eq_some_iff.mp ends
  unfold Machine.run at found rendered ⊢
  split
  · rename_i none_
    simp only [none_] at found
    cases found
  · rename_i main loads
    simp only [loads] at found rendered
    have whole : Machine.runSteps s fuel (m.start main) =
        (.value v, (Machine.runSteps s fuel (m.start main)).2) :=
      Prod.ext (Result.eq_of_value? found) rfl
    rw [Machine.runSteps_of_le whole le]
    exact congrArg some rendered

theorem not_keepsText (without : text? (m.run s.cleared fuel) = some text)
    (with_ : text? (m.run s fuel) = some text') (differs : text' ≠ text) : ¬ KeepsText s m := by
  intro keeps
  obtain ⟨other, ends⟩ := keeps fuel text without
  refine differs (Option.some.inj ?_)
  rw [← text?_eq_of_le with_ (Nat.le_max_left fuel other),
    ← text?_eq_of_le ends (Nat.le_max_right fuel other)]

/-- The program, whose functions are made of local instructions, does not keep its text. -/
def Changes (p : Program) : Prop :=
  (setup p).config.maxFrames = 0 ∧ p.isLocal = true ∧ ¬ KeepsText (setup p) Refrain.fresh

/-- Captured variables, values below an activation and the sign of zero are no part of a key. -/
theorem remembering_changes_texts :
    Changes captured ∧ Changes capturedBelow ∧ Changes taken ∧ Changes zeros := by
  refine ⟨⟨rfl, by decide +kernel, ?_⟩, ⟨rfl, by decide +kernel, ?_⟩, ⟨rfl, by decide +kernel, ?_⟩,
    ⟨rfl, by decide +kernel, ?_⟩⟩
  · have without : text? (Refrain.fresh.run (setup captured).cleared 20) = some "b" := by decide +kernel
    have with_ : text? (Refrain.fresh.run (setup captured) 20) = some "a" := by decide +kernel
    exact not_keepsText without with_ (by decide)
  · have without : text? (Refrain.fresh.run (setup capturedBelow).cleared 20) = some "b" := by
      decide +kernel
    have with_ : text? (Refrain.fresh.run (setup capturedBelow) 20) = some "a" := by decide +kernel
    exact not_keepsText without with_ (by decide)
  · have without : text? (Refrain.fresh.run (setup taken).cleared 20) = some "null" := by decide +kernel
    have with_ : text? (Refrain.fresh.run (setup taken) 20) = some "b" := by decide +kernel
    exact not_keepsText without with_ (by decide)
  · have without : text? (Refrain.fresh.run (setup zeros).cleared 20) = some "-inf" := by decide +kernel
    have with_ : text? (Refrain.fresh.run (setup zeros) 20) = some "inf" := by decide +kernel
    exact not_keepsText without with_ (by decide)

end Unkeyed

end TableMachine
