import TableMachine.Proofs.Isolation

/-! # A try region ends by its else block or by a catch block

The else block of a region is for the case that none of its catch blocks was entered. What decides is the
mark `fired` of the handler, which can be anywhere when the region ends: catch blocks may jump back into the
body, another activation may end the region, and the same instruction may enter the region again. Handlers are
told apart by the numbers they get when they are pushed. A number is never given twice, a handler that was
removed does not come back, and one that has caught a fault stays marked as long as it is active. So the
instruction that ends a region goes on at the else block at most once for each handler, and never if the handler
catches a fault at any time of the run.
-/

namespace TableMachine

namespace Machine

variable {s : Setup} {m m' m₀ origin : Machine} {main : Chunk} {frame : Frame} {i : Chunk.Instruction}
  {h record : Handler} {P : Handler → Prop} {n time : Nat}

/-! ## What happens to a handler -/

/-- The next instruction enters a try region and pushes the handler `record`. -/
def PushesHandler (s : Setup) (m : Machine) (record : Handler) (m' : Machine) : Prop :=
  ∃ frame i, m.Executes s frame i m' ∧ i.op = .beginTry ∧ m'.handlers = m.handlers.push record

/-- The next instruction ends a try region. It removes the handler that was pushed as `record`, which has
caught nothing, and goes on at the else block. A handler that has caught something lets the pointer go past the
instruction, even where an else block happens to begin right there. -/
def TakesElse (s : Setup) (m : Machine) (record : Handler) (m' : Machine) : Prop :=
  ∃ frame i h, m.Executes s frame i m' ∧ i.op = .endTry ∧ m.handlers.top? = some h ∧
    h.serial = record.serial ∧ h.fired = false ∧ h.region.hasElse = true ∧
    m'.frames = ((m.fetched frame i).jumpTo h.region.elseEntry).frames

/-- The run from `origin` takes `time` steps, and the next one is such an event. -/
def HappensAt (s : Setup) (origin : Machine) (time : Nat) (event : Machine → Machine → Prop) : Prop :=
  ∃ m m', runSteps s time origin = (.unfinished, m) ∧ event m m'

/-- No instruction that ends a region moves the pointer but by taking an else block. -/
theorem Executes.takesElse (executes : m.Executes s frame i m') (end_ : i.op = .endTry) :
    m'.frames = (m.fetched frame i).frames ∨ ∃ h, m.handlers.top? = some h ∧ m.TakesElse s h m' := by
  have done := executes.done
  rw [end_] at done
  simp only [execute, Effect.done.injEq] at done
  unfold endTry at done
  split at done
  · exact .inl (by rw [done])
  · rename_i h top
    simp only at done
    split at done
    · rename_i unfired
      rw [Bool.and_eq_true, Bool.not_eq_true'] at unfired
      exact .inr ⟨h, top, frame, i, h, executes, end_, top, rfl, unfired.1, unfired.2, by rw [← done]; rfl⟩
    · exact .inl (by rw [← done])

theorem TakesElse.leaves (takes : m.TakesElse s record m') :
    ∃ h, m.handlers.top? = some h ∧ h.serial = record.serial ∧ h.fired = false ∧
      m'.handlers = m.handlers.drop 1 ∧ m'.regionsEntered = m.regionsEntered := by
  obtain ⟨frame, i, h, executes, end_, top, serial, unfired, _⟩ := takes
  refine ⟨h, top, serial, unfired, executes.leaves (.inl end_), ?_⟩
  have done := executes.done
  rw [end_] at done
  cases done
  exact (endTry_leaves _).regionsEntered

theorem TakesElse.steps (takes : m.TakesElse s record m') : Steps s m m' := by
  obtain ⟨_, _, _, executes, _⟩ := takes
  exact executes.steps

theorem PushesHandler.steps (pushes : m.PushesHandler s record m') : Steps s m m' := by
  obtain ⟨_, _, executes, _⟩ := pushes
  exact executes.steps

/-- A handler gets the number of regions that were entered before it. -/
theorem PushesHandler.serial_eq (pushes : m.PushesHandler s record m') :
    record.serial = m.regionsEntered ∧ m'.regionsEntered = m.regionsEntered + 1 := by
  obtain ⟨frame, i, executes, begin_, pushed⟩ := pushes
  obtain ⟨region, change, rfl⟩ := executes.enters begin_ pushed
  exact ⟨rfl, change.regionsEntered⟩

theorem CaughtBy.steps (caught : m.CaughtBy s record m') : Steps s m m' := by
  obtain ⟨_, _, _, _, _, _, _, faults, _, _, caught⟩ := caught
  exact faults.steps caught

theorem CaughtBy.fires (caught : m.CaughtBy s record m') :
    ∃ newer h older, m.handlers.items = newer ++ h :: older ∧ h.serial = record.serial ∧
      m'.handlers.items = { h with fired := true } :: older ∧ m'.regionsEntered = m.regionsEntered := by
  obtain ⟨frame, i, cause, raised, h, clause, older, faults, found, serial, caught⟩ := caught
  obtain ⟨newer, handlers, _⟩ := catcher?_eq_some_iff.mp found
  obtain ⟨h', clause', older', owner, bound, found', _, _, rfl⟩ := dispatch_caught caught
  cases found.symm.trans found'
  exact ⟨newer, h, older, by rw [← handlers, faults.raises.handlers]; rfl, serial, rfl,
    faults.raises.regionsEntered⟩

/-! ## Where handlers come from in one step -/

/-- A handler that is active after a step was so before, perhaps without the mark of having caught a fault, or
it has the next number. -/
theorem Advances.handler (advances : m.Advances s m') (member : h ∈ m'.handlers.items) :
    (∃ g ∈ m.handlers.items, h = g ∨ h = { g with fired := true }) ∨ h.serial = m.regionsEntered := by
  have kept : ∀ {items : List Handler}, h ∈ items → items.Sublist m.handlers.items →
      ∃ g ∈ m.handlers.items, h = g ∨ h = { g with fired := true } :=
    fun member sublist => ⟨h, sublist.subset member, .inl rfl⟩
  cases advances with
  | executes executes =>
      cases executes.completes with
      | works _ change | calls _ change =>
          rw [change.handlers] at member
          exact .inl (kept member (List.Sublist.refl _))
      | enters _ change =>
          rw [change.handlers, Stack.items_push] at member
          rcases List.mem_cons.mp member with rfl | earlier
          · exact .inr rfl
          · exact .inl (kept earlier (List.Sublist.refl _))
      | leaves _ change =>
          rw [change.handlers] at member
          exact .inl (kept member (List.drop_sublist 1 _))
      | returns _ change =>
          rw [change.handlers] at member
          exact .inl (kept member (List.dropWhile_sublist _))
  | catches faults caught =>
      obtain ⟨g, clause, older, owner, bound, found, _, _, rfl⟩ := dispatch_caught caught
      obtain ⟨newer, handlers, _⟩ := catcher?_eq_some_iff.mp found
      rw [faults.raises.handlers] at handlers
      have handlers : m.handlers.items = newer ++ g :: older := handlers
      rcases List.mem_cons.mp member with rfl | below
      · exact .inl ⟨g, by rw [handlers]; simp, .inr rfl⟩
      · exact .inl ⟨h, by rw [handlers]; simp [below], .inl rfl⟩
  | ends _ _ change =>
      rw [change.handlers] at member
      exact .inl (kept member (List.dropWhile_sublist _))

theorem Advances.regionsEntered_le (advances : m.Advances s m') (inv : m.Bracketed s) :
    m.regionsEntered ≤ m'.regionsEntered := by
  rcases advances.cases inv with shrinks | ⟨mid, called, shrinks, change⟩ | ⟨_, _, _, _, _, change⟩
  · exact Nat.le_of_eq shrinks.regionsEntered.symm
  · rw [change.regionsEntered, shrinks.regionsEntered]
  · rw [change.regionsEntered]
    exact Nat.le_succ _

/-! ## Facts about a handler that last -/

/-- The number `n` has been given to a handler, which satisfies `P` if it is still active. -/
structure Marks (m : Machine) (P : Handler → Prop) (n : Nat) : Prop where
  given : n < m.regionsEntered
  active : ∀ h ∈ m.handlers.items, h.serial = n → P h

/-- A fact that catching a fault does not undo holds of a handler for good. -/
theorem Marks.reaches (lasting : ∀ h, P h → P { h with fired := true })
    (start : Reaches s (m₀.start main) m) (run : Reaches s m m') (marks : m.Marks P n) :
    m'.Marks P n := by
  induction run with
  | refl => exact marks
  | @tail m₁ m₂ run next marks =>
      have advances := step_advances next
      have more := advances.regionsEntered_le (reaches_bracketed (start.trans run))
      refine ⟨Nat.lt_of_lt_of_le marks.given more, fun h member serial => ?_⟩
      rcases advances.handler member with ⟨g, earlier, rfl | rfl⟩ | newest
      · exact marks.active h earlier serial
      · exact lasting g (marks.active g earlier serial)
      -- A new handler has the next number, which `n` is below.
      · have given := marks.given
        omega

theorem TakesElse.marks (takes : m.TakesElse s record m') (numbers : m.Numbered) :
    m'.Marks (fun _ => False) record.serial := by
  obtain ⟨h, top, serial, _, handlers, entered⟩ := takes.leaves
  obtain ⟨older, items⟩ := Stack.top?_eq_some_iff.mp top
  have order := numbers.handlers
  rw [items] at order
  refine ⟨?_, fun g member same => ?_⟩
  · rw [entered, ← serial]
    exact numbers.entered h (by rw [items]; exact List.mem_cons_self)
  -- What stays is below the handler removed and has a lower number.
  · rw [handlers, Stack.items_drop, items] at member
    have below := (List.pairwise_cons.mp order).1 g member
    omega

theorem CaughtBy.marks (caught : m.CaughtBy s record m') (numbers : m.Numbered) :
    m'.Marks (fun h => h.fired = true) record.serial := by
  obtain ⟨newer, h, older, items, serial, handlers, entered⟩ := caught.fires
  have order := numbers.handlers
  rw [items] at order
  refine ⟨?_, fun g member same => ?_⟩
  · rw [entered, ← serial]
    exact numbers.entered h (by rw [items]; simp)
  · rw [handlers] at member
    rcases List.mem_cons.mp member with rfl | below
    · rfl
    · have lower := (List.pairwise_cons.mp (List.pairwise_append.mp order).2.1).1 g below
      omega

theorem TakesElse.not_marks (takes : m.TakesElse s record m') (fires : ∀ h, P h → h.fired = true) :
    ¬ m.Marks P record.serial := by
  intro marks
  obtain ⟨h, top, serial, unfired, _⟩ := takes.leaves
  obtain ⟨older, items⟩ := Stack.top?_eq_some_iff.mp top
  have fired := fires h (marks.active h (by rw [items]; exact List.mem_cons_self) serial)
  cases unfired.symm.trans fired

theorem CaughtBy.not_marks (caught : m.CaughtBy s record m') :
    ¬ m.Marks (fun _ => False) record.serial := by
  intro marks
  obtain ⟨newer, h, older, items, serial, _⟩ := caught.fires
  exact marks.active h (by rw [items]; simp) serial

/-! ## Times of a run -/

theorem runSteps_add {more : Nat} (first : runSteps s n m = (.unfinished, m')) :
    runSteps s (n + more) m = runSteps s more m' := by
  induction n generalizing m with
  | zero =>
      cases first
      rw [Nat.zero_add]
  | succ n ih =>
      rw [Nat.succ_add, runSteps]
      rw [runSteps] at first
      split at first
      · exact ih first
      · cases first
      · cases first
      · cases first

theorem Marks.later {a b c : Machine} {j k : Nat} (marks : b.Marks P n)
    (lasting : ∀ h, P h → P { h with fired := true })
    (first : runSteps s j (m₀.start main) = (.unfinished, a)) (next : Steps s a b)
    (second : runSteps s k (m₀.start main) = (.unfinished, c)) (before : j < k) : c.Marks P n := by
  obtain ⟨rest, rfl⟩ : ∃ rest, k = j + (rest + 1) := ⟨k - j - 1, by omega⟩
  rw [runSteps_add first, runSteps, show a.step s = .next b from next] at second
  have start : Reaches s (m₀.start main) a := reaches_iff_runSteps.mpr ⟨j, first⟩
  exact marks.reaches lasting (start.tail next) (reaches_iff_runSteps.mpr ⟨rest, second⟩)

theorem pushed_before {a b c d : Machine} {j k : Nat} {other : Handler}
    (first : runSteps s j (m₀.start main) = (.unfinished, a)) (pushes : a.PushesHandler s record b)
    (second : runSteps s k (m₀.start main) = (.unfinished, c)) (pushes' : c.PushesHandler s other d)
    (before : j < k) : record.serial < other.serial := by
  obtain ⟨serial, entered⟩ := pushes.serial_eq
  have marks : b.Marks (fun _ => True) record.serial := ⟨by omega, fun _ _ _ => trivial⟩
  rw [pushes'.serial_eq.1]
  exact (marks.later (fun _ => id) first pushes.steps second before).given

theorem TakesElse.not_later {a b c d : Machine} {j k : Nat}
    (first : runSteps s j (m₀.start main) = (.unfinished, a)) (takes : a.TakesElse s record b)
    (second : runSteps s k (m₀.start main) = (.unfinished, c)) (before : j < k) :
    ¬ c.TakesElse s record d ∧ ¬ c.CaughtBy s record d := by
  have numbers := reaches_numbered (reaches_iff_runSteps.mpr ⟨j, first⟩)
  have gone := (takes.marks numbers).later (fun _ => id) first takes.steps second before
  exact ⟨fun takes' => takes'.not_marks (fun _ => False.elim) gone, fun caught => caught.not_marks gone⟩

theorem CaughtBy.not_later {a b c d : Machine} {j k : Nat}
    (first : runSteps s j (m₀.start main) = (.unfinished, a)) (caught : a.CaughtBy s record b)
    (second : runSteps s k (m₀.start main) = (.unfinished, c)) (before : j < k) :
    ¬ c.TakesElse s record d := by
  have numbers := reaches_numbered (reaches_iff_runSteps.mpr ⟨j, first⟩)
  have fired := (caught.marks numbers).later (fun _ _ => rfl) first caught.steps second before
  exact fun takes => takes.not_marks (fun _ => id) fired

/-- An instruction that ends a region raises no fault. -/
theorem TakesElse.not_caughtBy {d : Machine} (takes : m.TakesElse s record m') : ¬ m.CaughtBy s record d := by
  obtain ⟨frame, i, h, executes, end_, _⟩ := takes
  rintro ⟨frame', i', cause, raised, _, _, _, faults, _⟩
  cases executes.fetches.top.symm.trans faults.fetches.top
  cases executes.fetches.instruction.symm.trans faults.fetches.instruction
  exact faults.not_end (.inl end_)

/-- Let a run push the handler `record` at some time. Entering the region again makes another handler. The
instruction that ends a region takes the else block of `record` at one time at most, and if it does, none of
the catch blocks of `record` is entered, neither before nor after. In no other way does such an instruction
move the pointer. -/
theorem else_excludes_catch (pushed : HappensAt s (m₀.start main) time (·.PushesHandler s record ·)) :
    (∀ k other, HappensAt s (m₀.start main) k (·.PushesHandler s other ·) →
      other.serial = record.serial → k = time) ∧
    (∀ j k, HappensAt s (m₀.start main) j (·.TakesElse s record ·) →
      HappensAt s (m₀.start main) k (·.TakesElse s record ·) → j = k) ∧
    (∀ j k, HappensAt s (m₀.start main) j (·.TakesElse s record ·) →
      ¬ HappensAt s (m₀.start main) k (·.CaughtBy s record ·)) ∧
    ∀ m frame i m', Reaches s (m₀.start main) m → m.Executes s frame i m' → i.op = .endTry →
      m'.frames = (m.fetched frame i).frames ∨ ∃ h, m.handlers.top? = some h ∧ m.TakesElse s h m' := by
  refine ⟨?_, ?_, ?_, fun m frame i m' _ executes end_ => executes.takesElse end_⟩
  · rintro k other ⟨c, d, second, pushes'⟩ same
    obtain ⟨a, b, first, pushes⟩ := pushed
    rcases Nat.lt_trichotomy k time with before | equal | after
    · have less := pushed_before second pushes' first pushes before
      omega
    · exact equal
    · have less := pushed_before first pushes second pushes' after
      omega
  · rintro j k ⟨a, b, first, takes⟩ ⟨c, d, second, takes'⟩
    rcases Nat.lt_trichotomy j k with before | equal | after
    · exact absurd takes' (TakesElse.not_later first takes second before).1
    · exact equal
    · exact absurd takes (TakesElse.not_later second takes' first after).1
  · rintro j k ⟨a, b, first, takes⟩ ⟨c, d, second, caught⟩
    rcases Nat.lt_trichotomy j k with before | rfl | after
    · exact (TakesElse.not_later first takes second before).2 caught
    · cases first.symm.trans second
      exact takes.not_caughtBy caught
    · exact CaughtBy.not_later second caught first after takes

end Machine

/-! ## A region that is entered twice

The main chunk branches within a try region on the value that it was entered with. The first time it goes on
to the end of the region, and the else block leaves another value and enters the region again. The second time it
reads a global that was never stored. The catch block is the end of the region itself, behind which the chunk
returns.
-/

namespace Retry

open Machine

def region : TryRegion := ⟨some #[⟨16, noIndex, noIndex⟩], 5⟩

def main : Chunk :=
  { Chunk.empty with
    code := some #[0x02, 0, 0, 0x40, 3, 0x02, 1, 0, 0x70, 0, 0, 0x43, 3, 0x12, 0, 0, 0x71, 0x51]
    constants := some #[Literal.constant (.bool false), Literal.constant (.bool true)]
    regions := some #[region] }

def setup : Setup where
  config := {}
  natives := #[]
  loaded := ⟨0, ⟨some main, #[]⟩⟩

def start : Machine := (Machine.new { heap := {}, files := .empty [] }).start main

/-- The machine after some steps. -/
def after (count : Nat) : Machine := (runSteps setup count start).2

/-- The handler pushed at the entry with the given number. -/
def record (serial : Nat) : Handler := ⟨region, 1, 0, false, 0, serial⟩

end Retry

namespace Machine

set_option maxRecDepth 4096 in
/-- The first handler has its else block taken, the second one catches a fault. -/
theorem else_excludes_catch_in_retry :
    HappensAt Retry.setup Retry.start 4 (·.TakesElse Retry.setup (Retry.record 0) ·) ∧
    HappensAt Retry.setup Retry.start 8 (·.CaughtBy Retry.setup (Retry.record 1) ·) ∧
    (∀ k, ¬ HappensAt Retry.setup Retry.start k (·.CaughtBy Retry.setup (Retry.record 0) ·)) ∧
    ∀ j, ¬ HappensAt Retry.setup Retry.start j (·.TakesElse Retry.setup (Retry.record 1) ·) := by
  have first : HappensAt Retry.setup Retry.start 2 (·.PushesHandler Retry.setup (Retry.record 0) ·) :=
    ⟨Retry.after 2, Retry.after 3, rfl, _, _, ⟨⟨rfl, by decide, rfl⟩, by decide, rfl⟩, rfl, rfl⟩
  have second : HappensAt Retry.setup Retry.start 6 (·.PushesHandler Retry.setup (Retry.record 1) ·) :=
    ⟨Retry.after 6, Retry.after 7, rfl, _, _, ⟨⟨rfl, by decide, rfl⟩, by decide, rfl⟩, rfl, rfl⟩
  have takes : HappensAt Retry.setup Retry.start 4 (·.TakesElse Retry.setup (Retry.record 0) ·) :=
    ⟨Retry.after 4, Retry.after 5, rfl, _, _, _, ⟨⟨rfl, by decide, rfl⟩, by decide, rfl⟩, rfl, rfl, rfl, rfl,
      rfl, rfl⟩
  have caught : HappensAt Retry.setup Retry.start 8 (·.CaughtBy Retry.setup (Retry.record 1) ·) :=
    ⟨Retry.after 8, Retry.after 9, rfl, _, _, _, _, _, _, _, ⟨⟨rfl, by decide, rfl⟩, by decide, rfl⟩, rfl,
      rfl, rfl⟩
  obtain ⟨_, _, excluded, _⟩ := else_excludes_catch first
  obtain ⟨_, _, excluded', _⟩ := else_excludes_catch second
  exact ⟨takes, caught, fun k => excluded 4 k takes, fun j taken => excluded' j 8 taken caught⟩

end Machine

end TableMachine
