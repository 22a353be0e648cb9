import TableMachine.Proofs.Clearing
import TableMachine.Proofs.Slots

/-! # Runs that depend on nothing below them

The values and activations that a call piles up are a `Segment`; `graft` sets a segment on top of a machine,
its ground. While the instructions are local ones, take operands from the segment only and copy variables of
its activations, or such variables below as hold the same on two grounds, a step turns one segment into
another whichever of the two grounds it stands on: a run above one can be replayed above the other. What a
segment holds are scalars, so that not even the heap of the ground matters.
-/

namespace TableMachine

/-! ## Scalars -/

/-- Whether the value refers to nothing in the heap. -/
def Value.isScalar : Value → Bool
  | array _ | object _ | table _ | column _ _ => false
  | _ => true

namespace Value

variable {a b : Value}

theorem equal_of_isScalar (first : a.isScalar = true) (second : b.isScalar = true) (heap heap' : Heap) :
    equal heap a b = equal heap' a b := by
  cases a <;> cases first <;> cases b <;> cases second <;> rfl

theorem truthy_of_isScalar (scalar : a.isScalar = true) (heap heap' : Heap) :
    a.truthy heap = a.truthy heap' := by
  cases a <;> cases scalar <;> rfl

end Value

theorem Constant.isScalar_value (k : Constant) : k.value.isScalar = true := by
  unfold Constant.value
  cases k.literal? with
  | none => rfl
  | some literal => cases literal <;> rfl

namespace Operation

variable {op : Opcode} {a b v : Value}

theorem binary_of_isScalar (first : a.isScalar = true) (second : b.isScalar = true) (op : Opcode)
    (heap heap' : Heap) : binary heap op a b = binary heap' op a b := by
  cases op with
  | equal | notEqual => simp only [binary, Value.equal_of_isScalar first second heap heap']
  | _ => rfl

private theorem isScalar_add (done : add a b = .ok v) : v.isScalar = true := by
  unfold add at done
  split at done <;> cases done <;> rfl

private theorem isScalar_divide (done : divide a b = .ok v) : v.isScalar = true := by
  unfold divide at done
  split at done
  · split at done <;> cases done
    rfl
  · cases done
    rfl
  · cases done
    rfl
  · cases done

private theorem isScalar_compare (done : compare op a b = .ok v) : v.isScalar = true := by
  unfold compare at done
  split at done <;> cases done <;> rfl

private theorem isScalar_arithmetic {x y : Number} (done : arithmetic op x y = .ok v) :
    v.isScalar = true := by
  unfold arithmetic at done
  split at done
  · cases done
    rfl
  · cases done
    rfl
  · split at done <;> cases done
    rfl
  · split at done <;> cases done
    rfl
  · cases done
    rfl
  · cases done

/-- Every result of an operator is a scalar, whatever its operands. -/
theorem isScalar_binary {heap : Heap} (done : binary heap op a b = .ok v) : v.isScalar = true := by
  unfold binary at done
  split at done
  · exact isScalar_add done
  · exact isScalar_divide done
  · cases done
    rfl
  · cases done
    rfl
  · exact isScalar_compare done
  · exact isScalar_compare done
  · exact isScalar_compare done
  · exact isScalar_compare done
  · split at done
    · exact isScalar_arithmetic done
    · cases done

theorem isScalar_negate (done : negate a = .ok v) : v.isScalar = true := by
  unfold negate at done
  split at done
  · cases done
    rfl
  · cases done

end Operation

/-- The instructions that see and change nothing beyond the values and activations of their segment. -/
def Opcode.isLocal : Opcode → Bool
  | constant | pop | loadLocal | storeLocal | add | sub | mul | div | intDiv | mod | pow | negate | equal
  | notEqual | greater | less | greaterEqual | lessEqual | not | and | or | jump8 | jump16 | jump32
  | jumpIfFalse8 | jumpIfFalse16 | jumpIfFalse32 | call | return_ => true
  | _ => false

/-! ## Segments -/

/-- What a run has put on a machine: values and activations, the latest first, with heights and numbers
counted from there, and how many activations it began. -/
structure Segment where
  values : List Value
  frames : List Frame
  begun : Nat

/-- The activation knows scalars only, and its result is not to be remembered. -/
structure Frame.Inert (f : Frame) : Prop where
  slots : ∀ v ∈ f.slots, v.isScalar = true
  arguments : f.arguments = none

theorem Frame.Inert.isScalar_local {f : Frame} (inert : f.Inert) (slot : Int) :
    (f.local_ slot).isScalar = true := by
  unfold Frame.local_
  split
  · rfl
  · rw [Array.getD_eq_getD_getElem?]
    cases found : f.slots[slot.toNat]? with
    | none => rfl
    | some v => exact inert.slots v (Array.mem_of_getElem? found)

/-- An activation of a segment in place. -/
def Frame.onto (ground : Machine) (f : Frame) : Frame :=
  { f with
    stackStart := f.stackStart + ground.stack.height
    serial := f.serial + ground.activations }

/-- The machine with a segment on top. -/
def Machine.graft (ground : Machine) (t : Segment) : Machine :=
  { ground with
    stack := .ofList (t.values ++ ground.stack.items)
    frames := .ofList (t.frames.map (Frame.onto ground) ++ ground.frames.items)
    activations := t.begun + ground.activations }

namespace Segment

def push (t : Segment) (v : Value) : Segment := { t with values := v :: t.values }

def drop (t : Segment) (count : Nat) : Segment := { t with values := t.values.drop count }

def modifyFrame (t : Segment) (change : Frame → Frame) : Segment :=
  { t with frames := t.frames.modifyHead change }

/-- The segment with the pointer of its innermost activation `f` past the instruction `i`. -/
def fetched (t : Segment) (f : Frame) (i : Chunk.Instruction) : Segment :=
  t.modifyFrame fun h => { h with started := f.ip.toNat, ip := f.ip.toNat + i.op.length }

/-- The segment without its innermost activation. -/
def unwound (t : Segment) (start : Nat) : Segment :=
  { t with values := t.values.drop (t.values.length - start), frames := t.frames.tail }

/-- The segment with a further activation of a function. -/
def enter (t : Segment) (routine : Routine) (chunk : Chunk) (slots : Array Value) : Segment :=
  { t with
    frames := {
      routine := some routine
      chunk := chunk
      ip := 0
      stackStart := t.values.length
      slots := slots
      arguments := none
      started := 0
      serial := t.begun + 1 } :: t.frames
    begun := t.begun + 1 }

/-- The segment before anything was put on the machine. -/
def empty : Segment := ⟨[], [], 0⟩

/-- The segment holds scalars only, nothing in it is to be remembered, and its first activation began on
the ground. -/
structure Sound (t : Segment) : Prop where
  values : ∀ v ∈ t.values, v.isScalar = true
  frames : ∀ f ∈ t.frames, f.Inert
  bottom : ∀ f ∈ t.frames.getLast?, f.stackStart = 0

namespace Sound

variable {t : Segment} {f : Frame} {rest : List Frame} {v : Value}

theorem inert (sound : t.Sound) (frames : t.frames = f :: rest) : f.Inert := by
  apply sound.frames f
  rw [frames]
  exact List.mem_cons_self

theorem push (sound : t.Sound) (scalar : v.isScalar = true) : (t.push v).Sound :=
  { sound with values := List.forall_mem_cons.mpr ⟨scalar, sound.values⟩ }

theorem drop (sound : t.Sound) (n : Nat) : (t.drop n).Sound :=
  { sound with values := fun v member => sound.values v (List.mem_of_mem_drop member) }

theorem modifyFrame {change : Frame → Frame} (sound : t.Sound) (frames : t.frames = f :: rest)
    (start : (change f).stackStart = f.stackStart) (inert : (change f).Inert) :
    (t.modifyFrame change).Sound := by
  obtain ⟨values, inner, bottom⟩ := sound
  rw [frames] at inner bottom
  refine ⟨values, ?_, ?_⟩
  · intro g member
    simp only [Segment.modifyFrame, frames, List.modifyHead_cons] at member
    rcases List.mem_cons.mp member with rfl | member
    · exact inert
    · exact inner g (List.mem_cons_of_mem f member)
  · simp only [Segment.modifyFrame, frames, List.modifyHead_cons]
    cases rest with
    | nil => simpa [start] using bottom
    | cons h rest => simpa using bottom

theorem unwound (sound : t.Sound) (frames : t.frames = f :: rest) (start : Nat) :
    (t.unwound start).Sound := by
  obtain ⟨values, inner, bottom⟩ := sound
  rw [frames] at inner bottom
  refine ⟨fun v member => values v (List.mem_of_mem_drop member), ?_, ?_⟩
  · simp only [Segment.unwound, frames, List.tail_cons]
    exact fun g member => inner g (List.mem_cons_of_mem f member)
  · simp only [Segment.unwound, frames, List.tail_cons]
    cases rest with
    | nil => simp
    | cons h rest => simpa using bottom

/-- An activation above another one may begin on values. -/
theorem enter (sound : t.Sound) (above : t.frames ≠ [] ∨ t.values = []) (routine : Routine)
    (chunk : Chunk) {slots : Array Value} (scalars : ∀ v ∈ slots, v.isScalar = true) :
    (t.enter routine chunk slots).Sound := by
  refine ⟨sound.values, List.forall_mem_cons.mpr ⟨⟨scalars, rfl⟩, sound.frames⟩, ?_⟩
  have bottom := sound.bottom
  cases frames : t.frames with
  | nil =>
      have low : t.values = [] := above.resolve_left (not_not.mpr frames)
      simp [Segment.enter, frames, low]
  | cons g rest =>
      rw [frames] at bottom
      simpa [Segment.enter, frames] using bottom

end Sound

end Segment

namespace Machine

variable {s : Setup} {g g₀ : Machine} {t : Segment} {f : Frame} {rest : List Frame} {v : Value} {n : Nat}

theorem graft_height : (g.graft t).stack.height = t.values.length + g.stack.height := by
  simp only [graft, Stack.ofList, List.length_append, g.stack.height_eq]

theorem graft_frames_height : (g.graft t).frames.height = t.frames.length + g.frames.height := by
  simp only [graft, Stack.ofList, List.length_append, List.length_map, g.frames.height_eq]

theorem graft_push (v : Value) : (g.graft t).push v = g.graft (t.push v) := rfl

theorem graft_drop (above : n ≤ t.values.length) : (g.graft t).drop n = g.graft (t.drop n) := by
  have stack : (Stack.ofList (t.values ++ g.stack.items)).drop n =
      .ofList (t.values.drop n ++ g.stack.items) := by
    apply Stack.ext
    simp only [Stack.items_drop, Stack.items_ofList, List.drop_append_of_le_length above]
  simp only [graft, drop, Segment.drop, stack]

theorem graft_modifyFrame {change : Frame → Frame} (frames : t.frames = f :: rest)
    (commutes : ∀ f : Frame, change (f.onto g) = (change f).onto g) :
    (g.graft t).modifyFrame change = g.graft (t.modifyFrame change) := by
  simp only [graft, modifyFrame, Segment.modifyFrame, frames, List.map_cons, List.cons_append,
    List.modifyHead_cons, ← commutes]
  rfl

theorem graft_top (frames : t.frames = f :: rest) : (g.graft t).frames.top? = some (f.onto g) := by
  simp only [graft, frames, Stack.top?, Stack.items_ofList, List.map_cons, List.cons_append,
    List.head?_cons]

theorem graft_begun (routine : Routine) (chunk : Chunk) (slots : Array Value) (arguments : List Value)
    (plain : routine.function.cacheable = false) :
    (g.graft t).begun routine chunk slots arguments = g.graft (t.enter routine chunk slots) := by
  have serial : t.begun + g.activations + 1 = t.begun + 1 + g.activations := Nat.add_right_comm _ _ _
  unfold begun
  rw [graft_height, plain]
  simp only [graft, Segment.enter, Frame.onto, List.map_cons, List.cons_append, serial, if_false,
    Bool.false_eq_true]
  rfl

theorem graft_unwound (frames : t.frames = f :: rest) (inert : f.Inert)
    (inv : g.Bracketed s) (v : Value) :
    (g.graft t).unwound s (f.onto g) v = g.graft (t.unwound f.stackStart) := by
  have height := g.stack.height_eq
  have stack : (g.graft t).stack.truncate (f.onto g).stackStart =
      .ofList (t.values.drop (t.values.length - f.stackStart) ++ g.stack.items) := by
    apply Stack.ext
    simp only [graft, Frame.onto, Stack.items_truncate, Stack.items_ofList, List.length_append]
    rw [show t.values.length + g.stack.items.length - (f.stackStart + g.stack.height) =
      t.values.length - f.stackStart by omega]
    exact List.drop_append_of_le_length (Nat.sub_le _ _)
  -- Every handler belongs to an activation of the ground.
  have handlers : (g.graft t).handlers.dropWhile (fun h => (g.graft t).topIndex ≤ h.frameIndex) =
      g.handlers := by
    apply Stack.ext
    show g.handlers.items.dropWhile _ = _
    cases items : g.handlers.items with
    | nil => rfl
    | cons h older =>
        have low := inv.frameIndex_lt (h := h) (by rw [items]; exact List.mem_cons_self)
        have index : (g.graft t).topIndex = rest.length + g.frames.height := by
          rw [topIndex, graft_frames_height, frames, List.length_cons]
          omega
        rw [List.dropWhile_cons, if_neg]
        simp only [decide_eq_true_eq]
        omega
  have memos : ((g.graft t).remember s (f.onto g) v).memos = g.memos := by
    unfold remember
    rw [show (f.onto g).arguments = none from inert.arguments]
    cases (f.onto g).routine <;> rfl
  unfold Machine.unwound
  rw [stack, handlers, memos]
  simp only [graft, Segment.unwound, frames, List.map_cons, List.cons_append, List.tail_cons]
  rfl

/-- A return from an activation of the segment. -/
theorem graft_returnFrom (frames : t.frames = f :: rest) (inert : f.Inert)
    (inv : g.Bracketed s) (v : Value) :
    (g.graft t).returnFrom s v = .done (g.graft ((t.unwound f.stackStart).push v)) := by
  have live := inv.live
  have inhabited : ((g.graft t).frames.drop 1).isEmpty = false := by
    rw [g.frames.height_eq] at live
    simp only [graft, frames, Stack.isEmpty, Stack.items_drop, Stack.items_ofList, List.map_cons,
      List.cons_append, List.drop_succ_cons, List.drop_zero, List.isEmpty_eq_false_iff, ne_eq,
      List.append_eq_nil_iff, not_and]
    intro _ none_
    rw [none_] at live
    exact absurd live (Nat.lt_irrefl 0)
  rw [returnFrom_eq s v (graft_top frames), inhabited, graft_unwound frames inert inv]
  rfl

/-! ## Captures -/

/-- What a slot of the activation at a depth holds, counted from the innermost one; null where there is
none. -/
def sees (m : Machine) (depth : Nat) (slot : Int) : Value :=
  match m.frames.items[depth]? with
  | some f => f.local_ slot
  | none => .null

theorem captured_eq (m : Machine) (c : Capture) :
    m.captured c = if c.depth < 0 then .null else m.sees c.depth.toNat c.source := rfl

/-- Both machines hold the same in the slots that `shared` names by depth and position. -/
def AgreeOn (shared : Nat → Int → Prop) (g g₀ : Machine) : Prop :=
  ∀ depth slot, shared depth slot → g.sees depth slot = g₀.sees depth slot

theorem graft_sees_of_lt {depth : Nat} (inside : depth < t.frames.length) (slot : Int) :
    (g.graft t).sees depth slot = (t.frames.get ⟨depth, inside⟩).local_ slot := by
  unfold sees
  simp only [graft, Stack.items_ofList]
  rw [List.getElem?_append_left (by simpa using inside), List.getElem?_map,
    List.getElem?_eq_getElem inside]
  rfl

theorem graft_sees_of_le {depth : Nat} (beyond : t.frames.length ≤ depth) (slot : Int) :
    (g.graft t).sees depth slot = g.sees (depth - t.frames.length) slot := by
  unfold sees
  simp only [graft, Stack.items_ofList]
  rw [List.getElem?_append_right (by simpa using beyond), List.length_map]

end Machine

/-- The capture reads an activation of the segment, or below it what is shared. -/
def Segment.Reads (shared : Nat → Int → Prop) (t : Segment) (c : Capture) : Prop :=
  c.depth < 0 ∨ c.depth.toNat < t.frames.length ∨ shared (c.depth.toNat - t.frames.length) c.source

namespace Machine

variable {s : Setup} {g g₀ : Machine} {t : Segment} {f : Frame} {rest : List Frame} {v : Value} {n : Nat}
  {shared : Nat → Int → Prop}

theorem graft_captured {c : Capture} (agree : g.AgreeOn shared g₀) (reads : t.Reads shared c) :
    (g.graft t).captured c = (g₀.graft t).captured c := by
  rw [captured_eq, captured_eq]
  split
  · rfl
  · rename_i deep
    by_cases inside : c.depth.toNat < t.frames.length
    · rw [graft_sees_of_lt inside, graft_sees_of_lt inside]
    · have below := (reads.resolve_left deep).resolve_left inside
      rw [graft_sees_of_le (Nat.le_of_not_lt inside), graft_sees_of_le (Nat.le_of_not_lt inside)]
      exact agree _ _ below

theorem isScalar_captured {c : Capture} (sound : t.Sound)
    (plain : ∀ depth slot, shared depth slot → (g.sees depth slot).isScalar = true)
    (reads : t.Reads shared c) : ((g.graft t).captured c).isScalar = true := by
  rw [captured_eq]
  split
  · rfl
  · rename_i deep
    by_cases inside : c.depth.toNat < t.frames.length
    · rw [graft_sees_of_lt inside]
      exact (sound.frames _ (List.get_mem _ _)).isScalar_local c.source
    · rw [graft_sees_of_le (Nat.le_of_not_lt inside)]
      exact plain _ _ ((reads.resolve_left deep).resolve_left inside)

theorem newSlots?_congr {m m' : Machine} {function : Function} (arguments : List Value)
    (same : ∀ c ∈ function.captures, m.captured c = m'.captured c) :
    m.newSlots? function arguments = m'.newSlots? function arguments := by
  have copied (slots : Array Value) :
      function.captures.foldlM (fun slots c => Frame.storeSlot? slots c.target (m.captured c)) slots =
        function.captures.foldlM (fun slots c => Frame.storeSlot? slots c.target (m'.captured c)) slots := by
    rw [← Array.foldlM_toList, ← Array.foldlM_toList]
    exact Frame.foldlM_storeSlot?_congr fun c member => same c (Array.mem_toList_iff.mp member)
  unfold newSlots?
  simp only [copied]

theorem isScalar_newSlots? {m : Machine} {function : Function} {arguments : List Value}
    {slots : Array Value} (built : m.newSlots? function arguments = some slots)
    (copies : ∀ c ∈ function.captures, (m.captured c).isScalar = true)
    (scalars : ∀ v ∈ arguments, v.isScalar = true) : ∀ v ∈ slots, v.isScalar = true := by
  unfold newSlots? at built
  simp only at built
  split at built
  · cases built
  · obtain ⟨copied, first, second⟩ := Option.bind_eq_some_iff.mp built
    rw [← Array.foldlM_toList] at first
    intro v member
    rcases Frame.mem_of_foldlM_storeSlot? second member with before | rfl | ⟨w, argument, rfl⟩
    · rcases Frame.mem_of_foldlM_storeSlot? first before with blank | rfl | ⟨c, capture, rfl⟩
      · rw [Array.eq_of_mem_replicate blank]
        rfl
      · rfl
      · exact copies c (Array.mem_toList_iff.mp capture)
    · rfl
    · exact scalars _ (List.fst_mem_of_mem_zipIdx argument)

/-! ## Instructions -/

/-- `g` can stand in for the ground `g₀`. -/
structure StandsIn (s : Setup) (shared : Nat → Int → Prop) (g₀ g : Machine) : Prop where
  bracketed : g.Bracketed s
  agree : g.AgreeOn shared g₀

theorem StandsIn.refl (inv : g.Bracketed s) : StandsIn s shared g g := ⟨inv, fun _ _ _ => rfl⟩

/-- What completes above the ground `g₀` completes above every ground that can stand in for it, and leaves
the same segment there. -/
def Uniform (s : Setup) (shared : Nat → Int → Prop) (g₀ : Machine) (effect : Machine → Effect) : Prop :=
  ∀ m', effect g₀ = .done m' →
    ∃ t : Segment, t.Sound ∧ ∀ g, StandsIn s shared g₀ g → effect g = .done (g.graft t)

namespace Uniform

variable {effect : Machine → Effect}

theorem done (sound : t.Sound) (same : ∀ g, StandsIn s shared g₀ g → effect g = .done (g.graft t)) :
    Uniform s shared g₀ effect := fun _ _ => ⟨t, sound, same⟩

theorem raised {cause : Machine → Cause} {after : Machine → Machine} :
    Uniform s shared g₀ fun g => .raised (cause g) (after g) := by
  intro m' completes
  cases completes

theorem broken : Uniform s shared g₀ fun _ => .broken := by
  intro m' completes
  cases completes

theorem withOne {change : Machine → Value → Machine → Effect} (sound : t.Sound)
    (enough : 1 ≤ t.values.length)
    (each : ∀ v, v.isScalar = true → Uniform s shared g₀ fun g => change g v (g.graft (t.drop 1))) :
    Uniform s shared g₀ fun g => (g.graft t).withOne (change g) := by
  obtain ⟨v, vs, values⟩ := List.exists_cons_of_length_pos enough
  have taken : (fun g => (g.graft t).withOne (change g)) = fun g => change g v (g.graft (t.drop 1)) := by
    funext g
    rw [← graft_drop enough]
    simp only [Machine.withOne, graft, Stack.items_ofList, values, List.cons_append]
  rw [taken]
  exact each v (sound.values v (by rw [values]; exact List.mem_cons_self))

theorem withTwo {change : Machine → Value → Value → Machine → Effect} (sound : t.Sound)
    (enough : 2 ≤ t.values.length)
    (each : ∀ a b, a.isScalar = true → b.isScalar = true →
      Uniform s shared g₀ fun g => change g a b (g.graft (t.drop 2))) :
    Uniform s shared g₀ fun g => (g.graft t).withTwo (change g) := by
  obtain ⟨b, a, vs, values⟩ : ∃ b a vs, t.values = b :: a :: vs := by
    match t.values, enough with
    | b :: a :: vs, _ => exact ⟨b, a, vs, rfl⟩
  have taken : (fun g => (g.graft t).withTwo (change g)) =
      fun g => change g a b (g.graft (t.drop 2)) := by
    funext g
    rw [← graft_drop enough]
    simp only [Machine.withTwo, graft, Stack.items_ofList, values, List.cons_append]
  rw [taken]
  exact each a b (sound.values a (by simp [values])) (sound.values b (by simp [values]))

theorem push (sound : t.Sound) {value : Machine → Value} (same : ∀ g, value g = value g₀)
    (scalar : (value g₀).isScalar = true) : Uniform s shared g₀ fun g => .done ((g.graft t).push (value g)) :=
  done (sound.push scalar) fun g _ => by rw [same, graft_push]

theorem yield_ (sound : t.Sound) {result : Machine → Except Cause Value}
    (same : ∀ g, result g = result g₀) (scalar : ∀ v, result g₀ = .ok v → v.isScalar = true) :
    Uniform s shared g₀ fun g => (g.graft t).yield_ (result g) := by
  cases found : result g₀ with
  | error cause =>
      intro m' completes
      simp only [found, Machine.yield_] at completes
      cases completes
  | ok v =>
      refine done (sound.push (scalar v found)) fun g _ => ?_
      rw [same, found]
      rfl

theorem jumpBy (sound : t.Sound) (frames : t.frames = f :: rest) (distance : Int) :
    Uniform s shared g₀ fun g => .done ((g.graft t).jumpBy distance) := by
  have inert := sound.inert frames
  have moved : (t.modifyFrame fun f => { f with ip := f.ip + distance }).Sound :=
    sound.modifyFrame frames rfl ⟨inert.slots, inert.arguments⟩
  exact done moved fun g _ => congrArg Effect.done (graft_modifyFrame frames fun _ => rfl)

end Uniform

theorem returnFrom_uniform (sound : t.Sound) (frames : t.frames = f :: rest) (scalar : v.isScalar = true) :
    Uniform s shared g₀ fun g => (g.graft t).returnFrom s v :=
  .done ((sound.unwound frames f.stackStart).push scalar) fun _ stands =>
    graft_returnFrom frames (sound.inert frames) stands.bracketed v

/-- A call under the cleared program, with no limit on activations, begins one or meets a hole. -/
theorem callFunction_cleared (unlimited : s.config.maxFrames ≤ 0) (m : Machine) (position : Nat)
    (function : Function) (arguments : List Value) :
    m.callFunction s.cleared ⟨position, function.cleared⟩ arguments =
      match function.chunk, m.newSlots? function arguments with
      | some chunk, some slots =>
        .done (m.begun ⟨position, function.cleared⟩ chunk slots arguments)
      | _, _ => .broken := by
  have room : m.isFull s.cleared = false := by
    show (decide (0 < s.config.maxFrames) && _) = false
    rw [decide_eq_false (by omega), Bool.false_and]
  have plain : m.callFunction s.cleared ⟨position, function.cleared⟩ arguments =
      m.activate s.cleared ⟨position, function.cleared⟩ arguments := rfl
  have chunk : function.cleared.chunk = function.chunk := rfl
  have slots : m.newSlots? function.cleared arguments = m.newSlots? function arguments := rfl
  rw [plain]
  unfold activate
  rw [room, enter?_eq, chunk, slots]
  cases function.chunk with
  | none => rfl
  | some chunk => cases m.newSlots? function arguments <;> rfl

/-- A function that copies variables of the segment and shared ones begins alike above every such ground. -/
theorem callFunction_uniform {function : Function} {arguments : List Value} (sound : t.Sound)
    (inside : t.frames ≠ []) (unlimited : s.config.maxFrames ≤ 0) (position : Nat)
    (plain : ∀ depth slot, shared depth slot → (g₀.sees depth slot).isScalar = true)
    (captures : ∀ c ∈ function.captures, t.Reads shared c)
    (scalars : ∀ v ∈ arguments, v.isScalar = true) :
    Uniform s.cleared shared g₀ fun g =>
      (g.graft t).callFunction s.cleared ⟨position, function.cleared⟩ arguments := by
  intro m' completes
  simp only [callFunction_cleared unlimited] at completes ⊢
  cases body : function.chunk with
  | none =>
      simp only [body] at completes
      cases completes
  | some chunk =>
      cases built : (g₀.graft t).newSlots? function arguments with
      | none =>
          simp only [body, built] at completes
          cases completes
      | some slots =>
          have inert := isScalar_newSlots? built
            (fun c member => isScalar_captured sound plain (captures c member)) scalars
          refine ⟨_, sound.enter (.inl inside) ⟨position, function.cleared⟩ chunk inert, fun g stands => ?_⟩
          have same : (g.graft t).newSlots? function arguments = some slots := by
            rw [← built]
            exact newSlots?_congr _ fun c member => graft_captured stands.agree (captures c member)
          simp only [same]
          exact congrArg Effect.done (graft_begun _ chunk slots arguments rfl)

end Machine

/-- What is on top of the segment is no native, and no function that copies variables from below the segment
other than shared ones. -/
structure Segment.Calls (s : Setup) (shared : Nat → Int → Prop) (t : Segment) : Prop where
  known : ∀ index, t.values.head? ≠ some (.native index)
  captures : ∀ index function, t.values.head? = some (.function index) →
    s.loaded.program.function? index = some (some function) → ∀ c ∈ function.captures, t.Reads shared c

namespace Machine

variable {s : Setup} {g g₀ : Machine} {t : Segment} {f : Frame} {rest : List Frame} {v : Value}
  {shared : Nat → Int → Prop}

theorem call_uniform {count : Nat} (sound : t.Sound) (inside : t.frames ≠ [])
    (enough : count + 1 ≤ t.values.length) (unlimited : s.config.maxFrames ≤ 0)
    (plain : ∀ depth slot, shared depth slot → (g₀.sees depth slot).isScalar = true)
    (calls : t.Calls s shared) :
    Uniform s.cleared shared g₀ fun g => (g.graft t).call s.cleared count := by
  obtain ⟨callee, vs, values⟩ := List.exists_cons_of_length_pos (Nat.lt_of_lt_of_le (Nat.succ_pos _) enough)
  obtain ⟨known, captures⟩ := calls
  rw [values] at enough known captures
  have top (g : Machine) : (g.graft t).stack.top? = some callee := by
    simp only [graft, Stack.top?, Stack.items_ofList, values, List.cons_append, List.head?_cons]
  have arguments (g : Machine) :
      ((g.graft t).stack.drop 1).latest count = (vs.take count).reverse := by
    simp only [graft, Stack.latest, Stack.items_drop, Stack.items_ofList, values, List.cons_append,
      List.drop_succ_cons, List.drop_zero]
    rw [List.take_append_of_le_length (by simpa using enough)]
  have taken (g : Machine) : (g.graft t).drop (count + 1) = g.graft (t.drop (count + 1)) :=
    graft_drop (by rw [values]; exact enough)
  unfold call
  simp only [top, arguments, taken]
  cases callee with
  | native index => exact absurd rfl (known index)
  | function index =>
      have listed := s.loaded.program.function?_cleared index
      have program : s.cleared.loaded.program = s.loaded.program.cleared := rfl
      simp only [program, listed]
      cases found : s.loaded.program.function? index with
      | none => exact .raised
      | some entry =>
          cases entry with
          | none => exact .broken
          | some function =>
              have within := captures index function rfl found
              have arity : function.cleared.arity = function.arity := rfl
              simp only [Option.map_some, arity]
              by_cases right : function.arity = count
              · simp only [right, ne_eq, not_true_eq_false, if_false]
                have scalars : ∀ v ∈ (vs.take count).reverse, v.isScalar = true := by
                  intro v member
                  refine sound.values v ?_
                  rw [values]
                  exact List.mem_cons_of_mem _ (List.mem_of_mem_take (List.mem_reverse.mp member))
                exact callFunction_uniform (sound.drop (count + 1)) inside unlimited index.toNat plain
                  within scalars
              · simp only [right, ne_eq, not_false_eq_true, if_true]
                exact .raised
  | _ => exact .raised

theorem storeLocal_uniform {h : Frame} (sound : t.Sound) (frames : t.frames = h :: rest) (inert : f.Inert)
    (scalar : v.isScalar = true) (slot : Int) :
    Uniform s shared g₀ fun g =>
      match (f.onto g).setLocal? slot v with
      | some stored => .done ((g.graft t).modifyFrame fun f => { f with slots := stored.slots })
      | none => .broken := by
  have slots (g : Machine) : (f.onto g).setLocal? slot v =
      (Frame.storeSlot? f.slots slot v).map fun slots => { f.onto g with slots := slots } := rfl
  simp only [slots]
  cases stored : Frame.storeSlot? f.slots slot v with
  | none => exact .broken
  | some slots =>
      have scalars : ∀ x ∈ slots, x.isScalar = true := by
        intro x member
        rcases Frame.mem_of_storeSlot? stored member with before | rfl | rfl
        · exact inert.slots x before
        · rfl
        · exact scalar
      have changed : (t.modifyFrame fun f => { f with slots := slots }).Sound :=
        sound.modifyFrame frames rfl ⟨scalars, (sound.inert frames).arguments⟩
      exact .done changed fun g _ => congrArg Effect.done (graft_modifyFrame frames fun _ => rfl)

/-- A local instruction that takes its operands from the segment does the same above every such ground. Its
activation is `f` as it was fetched and `h` since. -/
theorem execute_uniform {op : Opcode} {operand : Int} {h : Frame} (sound : t.Sound)
    (frames : t.frames = h :: rest) (inert : f.Inert) (local_ : op.isLocal = true)
    (enough : needed op operand ≤ t.values.length) (unlimited : s.config.maxFrames ≤ 0)
    (plain : ∀ depth slot, shared depth slot → (g₀.sees depth slot).isScalar = true)
    (calls : op = .call → t.Calls s shared) :
    Uniform s.cleared shared g₀ fun g => (g.graft t).execute s.cleared (f.onto g) op operand := by
  unfold execute
  cases op with
  | nop | catch_ | endCatch | loadGlobal | storeGlobal | in_ | makeArray | arrayLength | arrayElement
  | clone | beginTry | endTry | throw | popHandler => cases local_
  | pop => exact .withOne sound enough fun v _ => .done (sound.drop 1) fun _ _ => rfl
  | constant =>
      have chunk (g : Machine) : (f.onto g).chunk = f.chunk := rfl
      simp only [chunk]
      cases f.chunk.constants.entries[operand.toNat]? with
      | none => exact .raised
      | some k => exact .push sound (fun _ => rfl) k.isScalar_value
  | loadLocal => exact .push sound (fun _ => rfl) (inert.isScalar_local operand)
  | storeLocal =>
      exact .withOne sound enough fun v scalar =>
        storeLocal_uniform (sound.drop 1) frames inert scalar operand
  | add | sub | mul | div | intDiv | mod | pow | equal | notEqual | greater | less | greaterEqual
  | lessEqual =>
      exact .withTwo sound enough fun a b first second => .yield_ (sound.drop 2)
        (fun g => Operation.binary_of_isScalar first second _ _ _) fun v => Operation.isScalar_binary
  | negate =>
      exact .withOne sound enough fun v _ => .yield_ (sound.drop 1) (fun _ => rfl) fun v =>
        Operation.isScalar_negate
  | not =>
      exact .withOne sound enough fun v scalar => .push (sound.drop 1)
        (fun g => by rw [Value.truthy_of_isScalar scalar]) rfl
  | and | or =>
      refine .withTwo sound enough fun a b first second => .push (sound.drop 2)
        (fun g => by rw [Value.truthy_of_isScalar first]) ?_
      split <;> assumption
  | jump8 | jump16 | jump32 => exact .jumpBy sound frames operand
  | jumpIfFalse8 | jumpIfFalse16 | jumpIfFalse32 =>
      refine .withOne sound enough fun v scalar => ?_
      have truth (g : Machine) : v.truthy (g.graft (t.drop 1)).heap = v.truthy g₀.heap :=
        Value.truthy_of_isScalar scalar _ _
      simp only [truth]
      split
      · exact .done (sound.drop 1) fun _ _ => rfl
      · exact .jumpBy (sound.drop 1) frames operand
  | call =>
      have inside : t.frames ≠ [] := by
        rw [frames]
        exact List.cons_ne_nil _ _
      show Uniform s.cleared shared g₀ fun g => (g.graft t).call s.cleared operand.toNat
      exact call_uniform sound inside enough unlimited plain (calls rfl)
  | return_ =>
      have own (g : Machine) : (f.onto g).stackStart < (g.graft t).stack.height ↔
          f.stackStart < t.values.length := by
        rw [graft_height]
        simp only [Frame.onto]
        omega
      simp only [own]
      split
      · rename_i above
        exact .withOne sound (by omega) fun v scalar =>
          returnFrom_uniform (sound.drop 1) frames scalar
      · exact returnFrom_uniform sound frames rfl

/-! ## Steps -/

/-- The next instruction is a local one, takes none of the lowest `base` values, and calls no native and no
function that copies variables of the lowest `level` activations, other than those that `shared` names by
their depth below the others. -/
structure Confined (s : Setup) (level base : Nat) (shared : Nat → Int → Prop) (m : Machine) : Prop where
  opcode : ∀ frame i, m.Fetches frame i → i.op.isLocal = true
  operands : m.Spares base
  known : ∀ frame i index, m.Fetches frame i → i.op = .call → m.stack.top? ≠ some (.native index)
  captures : ∀ frame i index function, m.Fetches frame i → i.op = .call →
    m.stack.top? = some (.function index) → s.loaded.program.function? index = some (some function) →
    ∀ c ∈ function.captures, c.depth < 0 ∨ c.depth.toNat + level < m.frames.height ∨
      shared (c.depth.toNat + level - m.frames.height) c.source

variable {i : Chunk.Instruction} {m' : Machine}

theorem graft_fetched (frames : t.frames = f :: rest) :
    (g.graft t).fetched (f.onto g) i = g.graft (t.fetched f i) :=
  graft_modifyFrame frames fun _ => rfl

theorem Fetches.of_graft (fetches : (g₀.graft t).Fetches (f.onto g₀) i) (frames : t.frames = f :: rest)
    (g : Machine) : (g.graft t).Fetches (f.onto g) i :=
  ⟨graft_top frames, fetches.pointer, fetches.instruction⟩

theorem Confined.calls (confined : (g₀.graft t).Confined s g₀.frames.height g₀.stack.height shared)
    (fetches : (g₀.graft t).Fetches (f.onto g₀) i) (call : i.op = .call) (enough : 1 ≤ t.values.length) :
    (t.fetched f i).Calls s shared := by
  have top : (g₀.graft t).stack.top? = t.values.head? := by
    obtain ⟨v, vs, values⟩ := List.exists_cons_of_length_pos enough
    simp only [graft, Stack.top?, Stack.items_ofList, values, List.cons_append, List.head?_cons]
  refine ⟨fun index => top ▸ confined.known _ _ index fetches call, ?_⟩
  intro index function callee listed c member
  have length : (t.fetched f i).frames.length = t.frames.length := List.length_modifyHead
  have reads := confined.captures _ _ index function fetches call (top.trans callee) listed c member
  rw [graft_frames_height, Nat.add_lt_add_iff_right, Nat.add_sub_add_right] at reads
  rw [Segment.Reads, length]
  exact reads

theorem graft_endOfCode (frames : t.frames = f :: rest) (inert : f.Inert)
    (end_ : f.chunk.codeSize ≤ f.ip) (inv : g.Bracketed s) :
    Steps s (g.graft t) (g.graft ((t.unwound f.stackStart).push .null)) := by
  have live := inv.live
  have nested : (g.graft t).frames.height ≠ 1 := by
    rw [graft_frames_height, frames, List.length_cons]
    omega
  unfold Steps step
  rw [graft_top frames]
  show (if f.chunk.codeSize ≤ f.ip then _ else _) = _
  rw [if_pos end_, endOfCode, if_neg nested, graft_returnFrom frames inert inv]

/-- A confined step that is not the dispatch of a fault turns the segment into the same one above every ground
that can stand in for this one. -/
theorem graft_step (sound : t.Sound) (frames : t.frames = f :: rest) (inv : g₀.Bracketed s.cleared)
    (unlimited : s.config.maxFrames ≤ 0)
    (plain : ∀ depth slot, shared depth slot → (g₀.sees depth slot).isScalar = true)
    (confined : (g₀.graft t).Confined s g₀.frames.height g₀.stack.height shared)
    (next : Steps s.cleared (g₀.graft t) m')
    (uncaught : ∀ frame i cause raised, (g₀.graft t).Faults s.cleared frame i cause raised →
      raised.dispatch cause frame.ip ≠ .caught m') :
    ∃ t' : Segment, t'.Sound ∧ m' = g₀.graft t' ∧
      ∀ g, StandsIn s.cleared shared g₀ g → Steps s.cleared (g.graft t) (g.graft t') := by
  have inert := sound.inert frames
  have top : (g₀.graft t).frames.top? = some (f.onto g₀) := graft_top frames
  suffices uniform : ∃ t' : Segment, t'.Sound ∧
      ∀ g, StandsIn s.cleared shared g₀ g → Steps s.cleared (g.graft t) (g.graft t') by
    obtain ⟨t', sound', steps⟩ := uniform
    refine ⟨t', sound', ?_, steps⟩
    exact Outcome.next.inj (next.symm.trans (steps g₀ (.refl inv)))
  cases step_advances next with
  | @executes frame i _ executes =>
      cases top.symm.trans executes.fetches.top
      have above := confined.operands.above executes.fetches executes.enough
        (by rw [graft_height]; omega)
      rw [graft_height] at above
      have enough : needed i.op i.operand ≤ t.values.length := by omega
      have moved : (t.fetched f i).Sound := sound.modifyFrame frames rfl ⟨inert.slots, inert.arguments⟩
      have frames' : (t.fetched f i).frames =
          { f with started := f.ip.toNat, ip := f.ip.toNat + i.op.length } :: rest := by
        simp only [Segment.fetched, Segment.modifyFrame, frames, List.modifyHead_cons]
      have calls : i.op = .call → (t.fetched f i).Calls s shared := by
        intro call
        refine confined.calls executes.fetches call (Nat.le_trans ?_ enough)
        rw [call]
        exact Nat.succ_pos _
      have done := executes.done
      rw [graft_fetched frames] at done
      obtain ⟨t', sound', same⟩ := execute_uniform moved frames' inert
        (confined.opcode _ _ executes.fetches) enough unlimited plain calls m' done
      refine ⟨t', sound', fun g stands => Executes.steps ⟨executes.fetches.of_graft frames g, ?_, ?_⟩⟩
      · rw [graft_height]
        omega
      · rw [graft_fetched frames]
        exact same g stands
  | catches faults caught => exact absurd caught (uncaught _ _ _ _ faults)
  | ends top' end_ =>
      cases top.symm.trans top'
      exact ⟨_, (sound.unwound frames f.stackStart).push rfl, fun g stands =>
        graft_endOfCode frames inert end_ stands.bracketed⟩

/-! ## Runs -/

variable {cause : Cause} {raised e : Machine} {frame : Frame} {result : Value}

/-- No activation of the segment has a handler, so a fault that is caught discards all of them. -/
theorem height_le_of_caught (faults : (g₀.graft t).Faults s frame i cause raised)
    (caught : raised.dispatch cause frame.ip = .caught m') (inv : g₀.Bracketed s) :
    m'.frames.height ≤ g₀.frames.height := by
  obtain ⟨h, clause, older, owner, bound, found, _, _, rfl⟩ := dispatch_caught caught
  obtain ⟨newer, handlers, _⟩ := catcher?_eq_some_iff.mp found
  have outer : h ∈ g₀.handlers.items := by
    have kept : raised.handlers = g₀.handlers := faults.raises.handlers
    rw [← kept, handlers]
    exact List.mem_append_right _ List.mem_cons_self
  have low := inv.frameIndex_lt outer
  show ((raised.frames.truncate _).modifyTop _).height ≤ _
  rw [Stack.height_modifyTop, Stack.height_truncate]
  omega

theorem Ending.not_faults (ending : m'.Ending f result) : ¬ m'.Faults s frame i cause raised := by
  intro faults
  exact not_ending faults.fetches faults.ne_return ending

/-- The steps of a confined run, as long as an activation of the segment is live. -/
theorem graft_replays (sound : t.Sound) (inside : t.frames ≠ []) (inv : g₀.Bracketed s.cleared)
    (unlimited : s.config.maxFrames ≤ 0)
    (plain : ∀ depth slot, shared depth slot → (g₀.sees depth slot).isScalar = true)
    (way : Relation.ReflTransGen (StepsAbove s.cleared g₀.frames.height) (g₀.graft t) e)
    (confined : ∀ c, Relation.ReflTransGen (StepsAbove s.cleared g₀.frames.height) (g₀.graft t) c →
      c.Confined s g₀.frames.height g₀.stack.height shared) :
    ∃ t' : Segment, t'.Sound ∧ t'.frames ≠ [] ∧ e = g₀.graft t' ∧
      ∀ g, StandsIn s.cleared shared g₀ g → ∀ level < g.frames.height,
        Relation.ReflTransGen (StepsAbove s.cleared level) (g.graft t) (g.graft t') := by
  induction way with
  | refl => exact ⟨t, sound, inside, rfl, fun _ _ _ _ => .refl⟩
  | @tail c d way step ih =>
      obtain ⟨t₁, sound₁, inside₁, rfl, replay⟩ := ih
      obtain ⟨f, rest, frames⟩ := List.exists_cons_of_ne_nil inside₁
      obtain ⟨t₂, sound₂, rfl, steps⟩ := graft_step sound₁ frames inv unlimited plain (confined _ way)
        step.1
        fun _ _ _ _ faults caught => by
          have low := height_le_of_caught faults caught inv
          have high := step.2
          omega
      have high := step.2
      rw [graft_frames_height] at high
      refine ⟨t₂, sound₂, List.length_pos_iff.mp (by omega), rfl, ?_⟩
      intro g stands level low
      refine (replay g stands level low).tail ⟨steps g stands, ?_⟩
      rw [graft_frames_height]
      omega

/-- When the first activation of the segment returns, its result is all that is left of it. -/
theorem graft_returns (sound : t.Sound) (inside : t.frames ≠ []) (inv : g₀.Bracketed s.cleared)
    (unlimited : s.config.maxFrames ≤ 0)
    (plain : ∀ depth slot, shared depth slot → (g₀.sees depth slot).isScalar = true)
    (way : Relation.ReflTransGen (StepsAbove s.cleared g₀.frames.height) (g₀.graft t) e)
    (confined : ∀ c, Relation.ReflTransGen (StepsAbove s.cleared g₀.frames.height) (g₀.graft t) c →
      c.Confined s g₀.frames.height g₀.stack.height shared)
    (ending : e.Ending f result) (last : e.frames.height = g₀.frames.height + 1) :
    ∃ n, ∀ g, StandsIn s.cleared shared g₀ g → ∀ level < g.frames.height,
      Relation.ReflTransGen (StepsAbove s.cleared level) (g.graft t) (g.graft ⟨[result], [], n⟩) := by
  obtain ⟨t₁, sound₁, inside₁, rfl, replay⟩ := graft_replays sound inside inv unlimited plain way
    confined
  have live := inv.live
  obtain ⟨d, returned⟩ := ending.returned s.cleared (by omega)
  obtain ⟨h, rest, frames⟩ := List.exists_cons_of_ne_nil inside₁
  obtain ⟨t₂, _, rfl, steps⟩ := graft_step sound₁ frames inv unlimited plain (confined _ way)
    returned.steps fun _ _ _ _ faults => absurd faults ending.not_faults
  have single : rest = [] := by
    rw [graft_frames_height, frames, List.length_cons] at last
    exact List.length_eq_zero_iff.mp (by omega)
  have nothing : t₂.frames = [] := by
    have height := congrArg Stack.height returned.frames
    rw [Stack.height_drop, graft_frames_height, last] at height
    exact List.length_eq_zero_iff.mp (by omega)
  have values : t₂.values = [result] := by
    subst single
    cases (graft_top frames).symm.trans ending.top
    have start : (h.onto g₀).stackStart = g₀.stack.height := by
      have bottom := sound₁.bottom h (by rw [frames]; rfl)
      rw [Frame.onto, bottom, Nat.zero_add]
    have items := congrArg Stack.items returned.stack
    rw [start, Stack.items_push, Stack.items_truncate] at items
    simp only [graft, Stack.items_ofList, List.length_append, g₀.stack.height_eq, Nat.add_sub_cancel,
      List.drop_left] at items
    exact List.append_cancel_right items
  refine ⟨t₂.begun, fun g stands level low => ?_⟩
  have shape : t₂ = ⟨[result], [], t₂.begun⟩ := by
    rw [← nothing, ← values]
  rw [← shape]
  exact (replay g stands level low).tail ⟨steps g stands, by rw [graft_frames_height]; omega⟩

/-! ## Calls -/

variable {a b a₁ b₁ a₂ : Machine} {frame₁ frame₂ : Frame} {i₁ i₂ : Chunk.Instruction} {index : Int}
  {function : Function}

/-- The machine from which a call has taken its operands. -/
def ground (a : Machine) (frame : Frame) (i : Chunk.Instruction) : Machine :=
  (a.fetched frame i).drop (i.operand.toNat + 1)

theorem ground_bracketed (inv : a.Bracketed s) : (a.ground frame i).Bracketed s := by
  have moved := ((fetched_works a frame i).shrinks inv).bracketed inv
  exact ((Works.drop _ _).shrinks moved).bracketed moved

theorem graft_empty (g : Machine) : g.graft .empty = g := by
  have activations : 0 + g.activations = g.activations := Nat.zero_add _
  have stack : Stack.ofList g.stack.items = g.stack := Stack.ext rfl
  have frames : Stack.ofList g.frames.items = g.frames := Stack.ext rfl
  simp only [graft, Segment.empty, List.map_nil, List.nil_append, activations, stack, frames]

theorem ground_sees (a : Machine) (frame : Frame) (i : Chunk.Instruction) (depth : Nat) (slot : Int) :
    (a.ground frame i).sees depth slot = a.sees depth slot := by
  show (match (a.frames.modifyTop _).items[depth]? with | some f => _ | none => _) = _
  rw [Stack.items_modifyTop]
  unfold sees
  cases a.frames.items with
  | nil => rfl
  | cons f rest => cases depth <;> rfl

theorem Calls.executed (calls : a.Calls s frame i index function) :
    (a.fetched frame i).execute s.cleared frame i.op i.operand =
      (a.ground frame i).callFunction s.cleared ⟨index.toNat, function.cleared⟩ (a.argumentsOf i) := by
  have callee : (a.fetched frame i).stack.top? = some (.function index) := calls.callee
  have listed : s.cleared.loaded.program.function? index = some (some function.cleared) := by
    rw [show s.cleared.loaded.program = s.loaded.program.cleared from rfl,
      Program.function?_cleared, calls.listed]
    rfl
  have arity : function.cleared.arity = i.operand.toNat := calls.arity
  rw [calls.call]
  unfold execute Machine.call
  simp only [callee, listed, arity, ne_eq, not_true_eq_false, if_false]
  rfl

/-- A call under the cleared program begins an activation on its ground, unless the function lacks a part. -/
theorem Calls.steps_cleared_iff (calls : a.Calls s frame i index function)
    (unlimited : s.config.maxFrames ≤ 0) :
    Steps s.cleared a b ↔ ∃ chunk slots, function.chunk = some chunk ∧
      a.newSlots? function (a.argumentsOf i) = some slots ∧
      b = (a.ground frame i).graft (Segment.empty.enter ⟨index.toNat, function.cleared⟩ chunk slots) := by
  have enough : ¬ a.stack.height < needed i.op i.operand := by
    rw [calls.call]
    exact Nat.not_lt.mpr calls.enough
  have slots : (a.ground frame i).newSlots? function (a.argumentsOf i) =
      a.newSlots? function (a.argumentsOf i) :=
    newSlots?_congr _ fun c _ => by rw [captured_eq, captured_eq, ground_sees]
  unfold Steps
  rw [calls.fetches.step_eq, perform_eq, if_neg enough, calls.executed,
    callFunction_cleared unlimited, slots]
  cases function.chunk with
  | none => simp [settled]
  | some chunk =>
      cases a.newSlots? function (a.argumentsOf i) with
      | none => simp [settled]
      | some slots =>
          have began := graft_begun (g := a.ground frame i) (t := .empty)
            ⟨index.toNat, function.cleared⟩ chunk slots (a.argumentsOf i) rfl
          rw [graft_empty] at began
          simp [settled, began, eq_comm]

/-- A call that returned can be replayed by a call of the same function that begins with the same slots,
provided that the function kept to its own values and activations and to what both callers share. -/
theorem Calls.replays (first : a₁.Calls s frame₁ i₁ index function)
    (second : a₂.Calls s frame₂ i₂ index function) (inv₁ : a₁.Bracketed s.cleared)
    (inv₂ : a₂.Bracketed s.cleared) (unlimited : s.config.maxFrames ≤ 0)
    (same : a₂.newSlots? function (a₂.argumentsOf i₂) = a₁.newSlots? function (a₁.argumentsOf i₁))
    (scalars : ∀ slots, a₁.newSlots? function (a₁.argumentsOf i₁) = some slots →
      ∀ v ∈ slots, v.isScalar = true)
    (agree : a₂.AgreeOn shared a₁)
    (plain : ∀ depth slot, shared depth slot → (a₁.sees depth slot).isScalar = true)
    (begins : Steps s.cleared a₁ b₁)
    (way : Relation.ReflTransGen (StepsAbove s.cleared a₁.frames.height) b₁ e)
    (confined : ∀ c, Relation.ReflTransGen (StepsAbove s.cleared a₁.frames.height) b₁ c →
      c.Confined s a₁.frames.height (a₁.stack.drop (i₁.operand.toNat + 1)).height shared)
    (ending : e.Ending f result) (last : e.frames.height = a₁.frames.height + 1) :
    ∃ b₂ n, Steps s.cleared a₂ b₂ ∧ ∀ level < a₂.frames.height, level < b₂.frames.height ∧
      Relation.ReflTransGen (StepsAbove s.cleared level) b₂
        ((a₂.ground frame₂ i₂).graft ⟨[result], [], n⟩) := by
  obtain ⟨chunk, slots, body, built, rfl⟩ := (first.steps_cleared_iff unlimited).mp begins
  have height (a : Machine) (frame : Frame) (i : Chunk.Instruction) :
      (a.ground frame i).frames.height = a.frames.height := Stack.height_modifyTop _
  have sound : (Segment.empty.enter ⟨index.toNat, function.cleared⟩ chunk slots).Sound :=
    Segment.Sound.enter ⟨by simp [Segment.empty], by simp [Segment.empty], by simp [Segment.empty]⟩
      (.inr rfl) _ chunk (scalars slots built)
  have stands : StandsIn s.cleared shared (a₁.ground frame₁ i₁) (a₂.ground frame₂ i₂) :=
    ⟨ground_bracketed inv₂, fun depth slot both => by
      rw [ground_sees, ground_sees]
      exact agree depth slot both⟩
  rw [← height a₁ frame₁ i₁] at way confined last
  simp only [← ground_sees a₁ frame₁ i₁] at plain
  obtain ⟨n, replay⟩ := graft_returns sound (List.cons_ne_nil _ _) (ground_bracketed inv₁) unlimited plain
    way confined ending last
  refine ⟨_, n, (second.steps_cleared_iff unlimited).mpr ⟨chunk, slots, body, same.trans built, rfl⟩, ?_⟩
  intro level low
  refine ⟨?_, replay _ stands level (by rwa [height])⟩
  rw [graft_frames_height, height]
  omega

end Machine

end TableMachine
