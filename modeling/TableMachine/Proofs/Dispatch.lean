import TableMachine.Machine.Dispatch
import TableMachine.Proofs.Instruction

/-! # The search for a handler and what follows it

Dispatch is a search among the handlers followed by one change of the machine. The search is described
by `catcher?_eq_some_iff`: it stops at the latest handler that has a clause for the fault. The change is
`resumed`, and `dispatch_of_catcher?` says that dispatch does nothing else.
-/

namespace TableMachine.Machine

variable {m m' : Machine} {t : ErrorType} {cause : Cause} {site : Int} {h : Handler}
  {clause : CatchClause} {handlers older : List Handler} {owner bound : Frame} {message : Text}

/-! ## The search -/

theorem catcher?_eq_none_iff :
    m.catcher? t site handlers = none ↔ ∀ h ∈ handlers, m.clauseFor? t site h = none := by
  induction handlers with
  | nil => simp [catcher?]
  | cons h older ih =>
      simp only [catcher?, List.forall_mem_cons]
      cases offered : m.clauseFor? t site h with
      | none => simpa using ih
      | some clause => simp

theorem catcher?_eq_some_iff :
    m.catcher? t site handlers = some (h, clause, older) ↔
      ∃ newer, handlers = newer ++ h :: older ∧ (∀ g ∈ newer, m.clauseFor? t site g = none) ∧
        m.clauseFor? t site h = some clause := by
  induction handlers with
  | nil => simp [catcher?]
  | cons g rest ih =>
      simp only [catcher?]
      cases offered : m.clauseFor? t site g with
      | none =>
          simp only
          rw [ih]
          constructor
          · rintro ⟨newer, rfl, passed, accepted⟩
            exact ⟨g :: newer, rfl, List.forall_mem_cons.mpr ⟨offered, passed⟩, accepted⟩
          · rintro ⟨newer, split, passed, accepted⟩
            cases newer with
            | nil =>
                cases split
                cases offered.symm.trans accepted
            | cons g' newer =>
                cases split
                exact ⟨newer, rfl, (List.forall_mem_cons.mp passed).2, accepted⟩
      | some c =>
          constructor
          · intro found
            cases found
            exact ⟨[], rfl, by simp, offered⟩
          · rintro ⟨newer, split, passed, accepted⟩
            cases newer with
            | nil =>
                cases split
                cases offered.symm.trans accepted
                rfl
            | cons g' newer =>
                cases split
                cases offered.symm.trans (passed g (by simp))

/-- A handler with a clause for a fault has its activation among the live ones. -/
theorem clauseFor?_owner (offered : m.clauseFor? t site h = some clause) :
    ∃ owner, m.frames.get? h.frameIndex = some owner := by
  unfold clauseFor? at offered
  split at offered
  · split at offered
    · cases offered
    · rename_i owner found
      exact ⟨owner, found⟩
  · cases offered

/-! ## The change -/

/-- The machine after the handler `h` caught a fault: `bound` is its activation at the catch block,
and `older` are the handlers below. -/
def resumed (m : Machine) (h : Handler) (older : List Handler) (bound : Frame) : Machine :=
  { m with
    stack := m.stack.truncate h.stackHeight
    frames := (m.frames.truncate (h.frameIndex + 1)).modifyTop fun _ => bound
    handlers := .ofList ({ h with fired := true } :: older) }

theorem dispatch_of_catcher? (found : m.catcher? cause.errorType site m.handlers.items =
      some (h, clause, older)) (owned : m.frames.get? h.frameIndex = some owner) :
    m.dispatch cause site =
      match enterCatch? owner clause cause.message with
      | none => .broken
      | some bound => .caught (m.resumed h older bound) := by
  have inside := Stack.lt_height_of_get? owned
  have top : (m.frames.truncate (h.frameIndex + 1)).top? = some owner := by
    rw [Stack.top?_eq_get?, Stack.height_truncate, Nat.min_eq_right inside, Nat.succ_sub_one,
      Stack.get?_truncate_of_lt (Nat.lt_succ_self _), owned]
  unfold dispatch
  simp only [found, top]
  cases enterCatch? owner clause cause.message with
  | none => rfl
  | some bound => rfl

theorem enterCatch?_of_binds (binds : clause.binds = true) :
    enterCatch? owner clause message =
      (Frame.storeSlot? owner.slots clause.slot (.string message)).map fun slots =>
        { owner with slots := slots, ip := clause.entry } := by
  unfold enterCatch? Frame.setLocal?
  simp only [binds, if_true]
  cases Frame.storeSlot? owner.slots clause.slot (.string message) with
  | none => rfl
  | some slots => rfl

theorem enterCatch?_of_not_binds (silent : clause.binds = false) :
    enterCatch? owner clause message = some { owner with ip := clause.entry } := by
  unfold enterCatch?
  rw [silent]
  rfl

/-- Entering a catch block keeps the activation. -/
theorem enterCatch?_continues (entered : enterCatch? owner clause message = some bound) :
    owner.Continues bound := by
  cases binds : clause.binds with
  | true =>
      rw [enterCatch?_of_binds binds, Option.map_eq_some_iff] at entered
      obtain ⟨slots, _, rfl⟩ := entered
      exact ⟨rfl, rfl, rfl, rfl, rfl⟩
  | false =>
      rw [enterCatch?_of_not_binds binds] at entered
      cases entered
      exact ⟨rfl, rfl, rfl, rfl, rfl⟩

/-- A caught fault was accepted by a handler, and the machine resumed there. -/
theorem dispatch_caught (caught : m.dispatch cause site = .caught m') :
    ∃ h clause older owner bound,
      m.catcher? cause.errorType site m.handlers.items = some (h, clause, older) ∧
      m.frames.get? h.frameIndex = some owner ∧
      enterCatch? owner clause cause.message = some bound ∧ m' = m.resumed h older bound := by
  cases found : m.catcher? cause.errorType site m.handlers.items with
  | none =>
      unfold dispatch at caught
      rw [found] at caught
      cases caught
  | some selected =>
      obtain ⟨h, clause, older⟩ := selected
      obtain ⟨_, _, _, offered⟩ := catcher?_eq_some_iff.mp found
      obtain ⟨owner, owned⟩ := clauseFor?_owner offered
      rw [dispatch_of_catcher? found owned] at caught
      cases entered : enterCatch? owner clause cause.message with
      | none =>
          rw [entered] at caught
          cases caught
      | some bound =>
          rw [entered] at caught
          cases caught
          exact ⟨h, clause, older, owner, bound, rfl, owned, entered, rfl⟩

end TableMachine.Machine
