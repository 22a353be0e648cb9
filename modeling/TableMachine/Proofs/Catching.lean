import Mathlib.Data.List.Pairwise
import TableMachine.Proofs.Brackets
import TableMachine.Proofs.Slots

/-! # Which handler catches a fault

Dispatch takes the latest handler that may see the fault and has a clause for it, and of its clauses
the first. What that means is said here without the search: when an offset lies in a catch block, when
one type of fault is a special case of another, when a clause matches and when a handler is eligible.
The main statement is that dispatch does exactly this, and that it leaves everything alone that is not
named: the lower activations and handlers, the values below the remembered height, all slots but the
one that takes the message, and all of the machine where no handler catches the fault.
The catch blocks of a region whose clauses are in order leave no gap: they are all offsets from the first
clause up to the else block, so a handler passes over what its own activation raised there, and over nothing
that was raised in the body of the region.
-/

namespace TableMachine

/-! ## Catch blocks -/

namespace TryRegion

/-- The offset lies in the catch block at a position: from its entry up to the next block, and in the
last one up to the else block, if there is one. -/
def InBlock (r : TryRegion) (offset : Int) (clauses : List CatchClause) (n : Nat) : Prop :=
  ∃ clause, clauses[n]? = some clause ∧ clause.entry ≤ offset ∧
    match clauses[n + 1]? with
    | some next => offset < next.entry
    | none => r.hasElse = true → offset < r.elseEntry

theorem coveredFrom_iff (r : TryRegion) (offset : Int) (clauses : List CatchClause) :
    r.coveredFrom offset clauses = true ↔ ∃ n, r.InBlock offset clauses n := by
  fun_induction coveredFrom r offset clauses with
  | case1 => simp [InBlock]
  | case2 last =>
      simp only [Bool.and_eq_true, decide_eq_true_eq, Bool.or_eq_true, Bool.not_eq_true']
      constructor
      · rintro ⟨entered, inside⟩
        refine ⟨0, last, rfl, entered, ?_⟩
        rintro present
        rcases inside with absent | before
        · cases absent.symm.trans present
        · exact before
      · rintro ⟨n, clause, found, entered, before⟩
        cases n with
        | succ n => cases found
        | zero =>
            cases found
            refine ⟨entered, ?_⟩
            cases present : r.hasElse with
            | false => exact .inl rfl
            | true => exact .inr (before present)
  | case3 clause next rest ih =>
      simp only [Bool.or_eq_true, Bool.and_eq_true, decide_eq_true_eq]
      rw [ih]
      constructor
      · rintro (⟨entered, before⟩ | ⟨n, inside⟩)
        · exact ⟨0, clause, rfl, entered, before⟩
        · exact ⟨n + 1, inside⟩
      · rintro ⟨n, inside⟩
        cases n with
        | zero =>
            obtain ⟨c, found, entered, before⟩ := inside
            cases found
            exact .inl ⟨entered, before⟩
        | succ n => exact .inr ⟨n, inside⟩

/-- The offset lies in one of the region's own catch blocks. -/
def Covers (r : TryRegion) (offset : Int) : Prop := ∃ n, r.InBlock offset r.clauses n

theorem inCatchBlock_iff (r : TryRegion) (offset : Int) :
    r.inCatchBlock offset = true ↔ r.Covers offset :=
  coveredFrom_iff r offset r.clauses

/-! Where the clauses are in order, each block ends where the next one begins, so that together they fill
all from the first entry on up to the else block. -/

/-- The clauses begin one after the other, and the else block, if there is one, not before the last. -/
structure Ordered (r : TryRegion) : Prop where
  entries : r.clauses.Pairwise fun clause later => clause.entry ≤ later.entry
  elseEntry : r.hasElse = true → ∀ last, r.clauses.getLast? = some last → last.entry ≤ r.elseEntry

theorem Ordered.entry_le_elseEntry {r : TryRegion} (ordered : r.Ordered) (present : r.hasElse = true)
    {clause : CatchClause} (listed : clause ∈ r.clauses) : clause.entry ≤ r.elseEntry := by
  have nonempty : r.clauses ≠ [] := List.ne_nil_of_mem listed
  have behind : clause.entry ≤ (r.clauses.getLast nonempty).entry :=
    ordered.entries.rel_getLast_of_rel_getLast_getLast listed (Int.le_refl _)
  exact Int.le_trans behind (ordered.elseEntry present _ (List.getLast?_eq_some_getLast nonempty))

theorem coveredFrom_iff_between {r : TryRegion} {offset : Int} {clauses : List CatchClause}
    (entries : clauses.Pairwise fun clause later => clause.entry ≤ later.entry)
    (before : r.hasElse = true → ∀ clause ∈ clauses, clause.entry ≤ r.elseEntry) :
    r.coveredFrom offset clauses = true ↔
      ∃ first, clauses.head? = some first ∧ first.entry ≤ offset ∧
        (r.hasElse = false ∨ offset < r.elseEntry) := by
  fun_induction coveredFrom r offset clauses with
  | case1 => simp
  | case2 last => simp
  | case3 clause next rest ih =>
      obtain ⟨follow, laterEntries⟩ := List.pairwise_cons.mp entries
      have follows : clause.entry ≤ next.entry := follow next List.mem_cons_self
      have laterBefore := fun present c member => before present c (List.mem_cons_of_mem clause member)
      simp only [Bool.or_eq_true, Bool.and_eq_true, decide_eq_true_eq]
      rw [ih laterEntries laterBefore]
      constructor
      · rintro (⟨entered, passed⟩ | ⟨first, found, entered, inside⟩)
        · refine ⟨clause, rfl, entered, ?_⟩
          cases present : r.hasElse with
          | false => exact .inl rfl
          | true =>
              have reached := laterBefore present next List.mem_cons_self
              exact .inr (Int.lt_of_lt_of_le passed reached)
        · cases found
          exact ⟨clause, rfl, Int.le_trans follows entered, inside⟩
      · rintro ⟨first, found, entered, inside⟩
        cases found
        -- No gap: an offset that is not before the next block is in it or behind it.
        rcases Int.lt_or_le offset next.entry with passed | reached
        · exact .inl ⟨entered, passed⟩
        · exact .inr ⟨next, rfl, reached, inside⟩

/-- The catch blocks of a region in order are all offsets from the first clause on, up to the else block if
there is one. -/
theorem inCatchBlock_iff_between {r : TryRegion} (ordered : r.Ordered) (offset : Int) :
    r.inCatchBlock offset = true ↔
      ∃ first, r.clauses.head? = some first ∧ first.entry ≤ offset ∧
        (r.hasElse = false ∨ offset < r.elseEntry) :=
  coveredFrom_iff_between ordered.entries fun present _ => ordered.entry_le_elseEntry present

/-- Three clauses, two of which begin together, and an else block. -/
private def crowded : TryRegion :=
  ⟨some #[⟨10, noIndex, noIndex⟩, ⟨20, noIndex, noIndex⟩, ⟨20, noIndex, noIndex⟩], 30⟩

theorem inCatchBlock_iff_between_of_crowded :
    crowded.Ordered ∧ crowded.inCatchBlock 9 = false ∧ crowded.inCatchBlock 19 = true ∧
      crowded.inCatchBlock 29 = true ∧ crowded.inCatchBlock 30 = false := by
  have ordered : crowded.Ordered := by
    refine ⟨by decide, ?_⟩
    rintro _ _ ⟨⟩
    decide
  refine ⟨ordered, Bool.eq_false_iff.mpr ?_, ?_, ?_, Bool.eq_false_iff.mpr ?_⟩
  · rw [Ne, inCatchBlock_iff_between ordered 9]
    rintro ⟨_, ⟨⟩, entered, _⟩
    exact absurd entered (by decide)
  · exact (inCatchBlock_iff_between ordered 19).mpr ⟨_, rfl, by decide, .inr (by decide)⟩
  · exact (inCatchBlock_iff_between ordered 29).mpr ⟨_, rfl, by decide, .inr (by decide)⟩
  · rw [Ne, inCatchBlock_iff_between ordered 30]
    rintro ⟨_, _, _, absent | before⟩
    · exact absurd absent (by decide)
    · exact absurd before (by decide)

end TryRegion

/-! ## Types of faults -/

namespace ErrorType

/-- The type is `target`, or one of those it specializes leads there. -/
def Descends (t target : ErrorType) : Prop :=
  Relation.ReflTransGen (fun child parent => child.parent? = some parent) t target

theorem ancestry_eq (t : ErrorType) :
    t.ancestry = t :: (t.parent?.map ancestry).getD [] := by
  cases t <;> rfl

theorem mem_ancestry_iff {t target : ErrorType} : target ∈ t.ancestry ↔ t.Descends target := by
  constructor
  · intro member
    induction line : t.ancestry generalizing t with
    | nil => simp [line] at member
    | cons head rest ih =>
        rw [ancestry_eq] at line
        rw [ancestry_eq] at member
        rcases List.mem_cons.mp member with rfl | above
        · exact .refl
        · cases parent : t.parent? with
          | none => simp [parent] at above
          | some p =>
              simp only [parent, Option.map_some, Option.getD_some] at above line
              exact (ih above (List.cons.inj line).2).head parent
  · intro descends
    induction descends using Relation.ReflTransGen.head_induction_on with
    | refl => rw [ancestry_eq]; exact List.mem_cons_self
    | @head child parent up _ ih =>
        rw [ancestry_eq, up]
        exact List.mem_cons_of_mem _ ih

theorem isA_iff {t target : ErrorType} : t.isA target = true ↔ t.Descends target := by
  rw [isA, List.contains_iff_mem, mem_ancestry_iff]

theorem ofName?_name (t : ErrorType) : ofName? t.name = some t := by
  cases t <;> rfl

theorem ofName?_eq_some_iff {name : Text} {t : ErrorType} :
    ofName? name = some t ↔ t.name = name := by
  constructor
  · intro found
    unfold ofName? at found
    simpa using List.find?_some found
  · rintro rfl
    exact ofName?_name t

end ErrorType

/-! ## Clauses -/

namespace CatchClause

/-- The clause catches everything, or its entry in the table of names is that of a type which the
fault's type is or descends from. -/
def Matches (clause : CatchClause) (names : Array Text) (t : ErrorType) : Prop :=
  clause.errorType = noIndex ∨ ∃ target : ErrorType, 0 ≤ clause.errorType ∧
    names[clause.errorType.toNat]? = some target.name ∧ t.Descends target

theorem accepts_iff {clause : CatchClause} {names : Array Text} {t : ErrorType} :
    clause.accepts names t = true ↔ clause.Matches names t := by
  unfold accepts Matches
  split
  · rename_i untyped
    have everything : clause.errorType = noIndex := by simpa [isTyped] using untyped
    exact ⟨fun _ => .inl everything, fun _ => rfl⟩
  · rename_i typed
    have named : clause.errorType ≠ noIndex := by simpa [isTyped] using typed
    rw [or_iff_right named]
    split
    · rename_i negative
      constructor
      · intro accepted
        cases accepted
      · rintro ⟨_, present, _⟩
        omega
    · rename_i present
      cases entry : names[clause.errorType.toNat]? with
      | none => simp
      | some name =>
          simp only [Option.some.injEq]
          cases known : ErrorType.ofName? name with
          | none =>
              constructor
              · intro accepted
                cases accepted
              · rintro ⟨target, _, rfl, _⟩
                cases known.symm.trans (ErrorType.ofName?_name target)
          | some target =>
              simp only [ErrorType.isA_iff]
              constructor
              · intro descends
                have same := ErrorType.ofName?_eq_some_iff.mp known
                exact ⟨target, Int.not_lt.mp present, same.symm, descends⟩
              · rintro ⟨other, _, rfl, descends⟩
                cases known.symm.trans (ErrorType.ofName?_name other)
                exact descends

end CatchClause

/-! ## Handlers -/

namespace Machine

variable {s : Setup} {m m' : Machine} {t : ErrorType} {cause : Cause} {site : Int} {h : Handler}
  {clause : CatchClause} {older : List Handler} {owner bound : Frame}

/-- The handler may see a fault raised at `site`: the fault does not come from one of its own catch
blocks in its own activation. -/
def Eligible (m : Machine) (site : Int) (h : Handler) : Prop :=
  ¬ (h.frameIndex = m.topIndex ∧ h.region.Covers site)

/-- The handler is eligible and `clause` is its first clause that matches; `owner` is the activation
whose table of names the clauses refer to. -/
structure Offers (m : Machine) (t : ErrorType) (site : Int) (h : Handler) (owner : Frame)
    (clause : CatchClause) : Prop where
  eligible : m.Eligible site h
  owned : m.frames.get? h.frameIndex = some owner
  first : ∃ before after, h.region.clauses = before ++ clause :: after ∧
    ∀ c ∈ before, ¬ c.Matches owner.chunk.errorTypes.entries t
  matches_ : clause.Matches owner.chunk.errorTypes.entries t

/-- The handler is eligible and has a clause that matches. -/
def Catchable (m : Machine) (t : ErrorType) (site : Int) (h : Handler) : Prop :=
  m.Eligible site h ∧ ∃ owner, m.frames.get? h.frameIndex = some owner ∧
    ∃ clause ∈ h.region.clauses, clause.Matches owner.chunk.errorTypes.entries t

theorem Offers.listed (offers : m.Offers t site h owner clause) : clause ∈ h.region.clauses := by
  obtain ⟨before, after, split, _⟩ := offers.first
  rw [split]
  exact List.mem_append_right _ List.mem_cons_self

theorem Offers.catchable (offers : m.Offers t site h owner clause) : m.Catchable t site h :=
  ⟨offers.eligible, owner, offers.owned, clause, offers.listed, offers.matches_⟩

theorem isEligible_iff (inside : h.frameIndex ≤ m.topIndex) :
    m.isEligible site h = true ↔ m.Eligible site h := by
  unfold isEligible Eligible
  rw [← TryRegion.inCatchBlock_iff]
  simp [inside, Decidable.imp_iff_not_or]

/-- The clause that a handler is asked for is the first one that matches. -/
theorem clauseFor?_eq_some_iff (inside : h.frameIndex ≤ m.topIndex) :
    m.clauseFor? t site h = some clause ↔ ∃ owner, m.Offers t site h owner clause := by
  unfold clauseFor?
  by_cases eligible : m.Eligible site h
  · rw [if_pos ((isEligible_iff inside).mpr eligible)]
    cases owned : m.frames.get? h.frameIndex with
    | none =>
        constructor
        · intro offered
          cases offered
        · rintro ⟨owner, offers⟩
          cases owned.symm.trans offers.owned
    | some owner =>
        simp only [List.find?_eq_some_iff_append, CatchClause.accepts_iff]
        constructor
        · rintro ⟨matches_, before, after, split, passed⟩
          refine ⟨owner, eligible, owned, ⟨before, after, split, fun c member accepted => ?_⟩, matches_⟩
          have refused := passed c member
          rw [CatchClause.accepts_iff.mpr accepted] at refused
          cases refused
        · rintro ⟨other, offers⟩
          cases owned.symm.trans offers.owned
          obtain ⟨before, after, split, passed⟩ := offers.first
          refine ⟨offers.matches_, before, after, split, fun c member => ?_⟩
          rw [Bool.not_eq_true', Bool.eq_false_iff]
          exact fun accepted => passed c member (CatchClause.accepts_iff.mp accepted)
  · rw [if_neg (fun accepted => eligible ((isEligible_iff inside).mp accepted))]
    constructor
    · intro offered
      cases offered
    · rintro ⟨owner, offers⟩
      exact absurd offers.eligible eligible

theorem clauseFor?_eq_none_iff (inside : h.frameIndex ≤ m.topIndex) :
    m.clauseFor? t site h = none ↔ ¬ m.Catchable t site h := by
  unfold clauseFor? Catchable
  by_cases eligible : m.Eligible site h
  · rw [if_pos ((isEligible_iff inside).mpr eligible)]
    cases m.frames.get? h.frameIndex with
    | none => simp
    | some owner => simp [eligible, CatchClause.accepts_iff]
  · rw [if_neg (fun accepted => eligible ((isEligible_iff inside).mp accepted))]
    simp [eligible]

/-! ## Dispatch -/

/-- `m'` is `m` after the handler `h` of the activation `owner` caught a fault with `clause`. -/
structure Resumes (m : Machine) (message : Text) (h : Handler) (older : List Handler) (owner : Frame)
    (clause : CatchClause) (m' : Machine) : Prop where
  height : m'.frames.height = h.frameIndex + 1
  lower : ∀ p < h.frameIndex, m'.frames.get? p = m.frames.get? p
  /-- The activation goes on at the catch block; the message is bound if the clause asks for it, and
  no other slot changes. -/
  entered : ∃ bound, m'.frames.get? h.frameIndex = some bound ∧ owner.Continues bound ∧
    bound.started = owner.started ∧ bound.ip = clause.entry ∧
    (clause.slot = noIndex → bound.slots = owner.slots) ∧
    (clause.slot ≠ noIndex → bound.local_ clause.slot = .string message ∧
      ∀ slot ≠ clause.slot, bound.local_ slot = owner.local_ slot)
  stackHeight : m'.stack.height = min m.stack.height h.stackHeight
  values : ∀ p < h.stackHeight, m'.stack.get? p = m.stack.get? p
  handlers : m'.handlers.items = { h with fired := true } :: older
  /-- Nothing but the three stacks changes. -/
  rest : m' = { m with stack := m'.stack, frames := m'.frames, handlers := m'.handlers }

theorem resumed_resumes {message : Text} (owned : m.frames.get? h.frameIndex = some owner)
    (entered : enterCatch? owner clause message = some bound) :
    m.Resumes message h older owner clause (m.resumed h older bound) := by
  have inside := Stack.lt_height_of_get? owned
  have height : (m.frames.truncate (h.frameIndex + 1)).height = h.frameIndex + 1 := by
    rw [Stack.height_truncate]
    omega
  refine ⟨?_, ?_, ⟨bound, ?_, enterCatch?_continues entered, ?_⟩, ?_, ?_, rfl, rfl⟩
  · exact (Stack.height_modifyTop _).trans height
  · intro p below
    show ((m.frames.truncate (h.frameIndex + 1)).modifyTop _).get? p = _
    rw [Stack.get?_modifyTop_of_lt _ (by omega), Stack.get?_truncate_of_lt (by omega)]
  · show ((m.frames.truncate (h.frameIndex + 1)).modifyTop _).get? h.frameIndex = _
    have before : (m.frames.truncate (h.frameIndex + 1)).get? h.frameIndex = some owner := by
      rw [Stack.get?_truncate_of_lt (Nat.lt_succ_self _), owned]
    rw [Stack.get?_modifyTop_of_get? _ before, if_pos height.symm]
  · cases binds : clause.binds with
    | false =>
        have silent : clause.slot = noIndex := by simpa [CatchClause.binds] using binds
        rw [enterCatch?_of_not_binds binds] at entered
        cases entered
        exact ⟨rfl, rfl, fun _ => rfl, fun bound => absurd silent bound⟩
    | true =>
        have bound_ : clause.slot ≠ noIndex := by simpa [CatchClause.binds] using binds
        rw [enterCatch?_of_binds binds, Option.map_eq_some_iff] at entered
        obtain ⟨slots, stored, rfl⟩ := entered
        have read := Frame.local_of_storeSlot? (f := owner)
          (g := { owner with slots := slots, ip := clause.entry }) stored
        refine ⟨rfl, rfl, fun silent => absurd silent bound_, fun _ => ⟨?_, fun slot other => ?_⟩⟩
        · rw [read, if_pos rfl]
        · rw [read, if_neg other]
  · show (m.stack.truncate h.stackHeight).height = _
    rw [Stack.height_truncate]
  · intro p below
    exact Stack.get?_truncate_of_lt below

/-- A clause whose slot can be stored is entered. -/
theorem enterCatch?_isSome (low : noIndex ≤ clause.slot) (high : clause.slot < maxValues)
    (owner : Frame) (message : Text) : ∃ bound, enterCatch? owner clause message = some bound := by
  cases binds : clause.binds with
  | false => exact ⟨_, enterCatch?_of_not_binds binds⟩
  | true =>
      have bound_ : clause.slot ≠ noIndex := by simpa [CatchClause.binds] using binds
      have possible : 0 ≤ clause.slot := by
        unfold noIndex at low bound_
        omega
      obtain ⟨slots, stored⟩ := Frame.exists_storeSlot? owner.slots (.string message) possible high
      exact ⟨_, by rw [enterCatch?_of_binds binds, stored]; rfl⟩

theorem raise_of_uncaught (none_ : ∀ h ∈ m.handlers.items, m.clauseFor? cause.errorType site h = none)
    (frame : Frame) :
    m.raise frame cause site = .failed (m.faultAt cause (frame.chunk.lineAt site)) m := by
  unfold raise dispatch
  rw [catcher?_eq_none_iff.mpr none_]

/-- Dispatch succeeds exactly when an eligible handler has a clause that matches. It takes the latest
such handler and the first such clause, and changes what `Resumes` says. Otherwise the fault ends the
run with the machine as it was. -/
theorem dispatch_exact (inv : m.Bracketed s) (cause : Cause) (site : Int)
    (slots : ∀ h ∈ m.handlers.items, ∀ c ∈ h.region.clauses, noIndex ≤ c.slot ∧ c.slot < maxValues) :
    ((∃ m', m.dispatch cause site = .caught m') ↔
      ∃ h ∈ m.handlers.items, m.Catchable cause.errorType site h) ∧
    (∀ m', m.dispatch cause site = .caught m' → ∃ newer h older owner clause,
      m.handlers.items = newer ++ h :: older ∧
      (∀ g ∈ newer, ¬ m.Catchable cause.errorType site g) ∧
      m.Offers cause.errorType site h owner clause ∧
      m.Resumes cause.message h older owner clause m') ∧
    ((∀ h ∈ m.handlers.items, ¬ m.Catchable cause.errorType site h) → ∀ frame,
      m.raise frame cause site = .failed (m.faultAt cause (frame.chunk.lineAt site)) m) := by
  have inside : ∀ h ∈ m.handlers.items, h.frameIndex ≤ m.topIndex := fun h member =>
    Nat.le_sub_one_of_lt (inv.frameIndex_lt member)
  refine ⟨⟨?_, ?_⟩, ?_, ?_⟩
  · rintro ⟨m', caught⟩
    obtain ⟨h, clause, older, _, _, found, _⟩ := dispatch_caught caught
    obtain ⟨newer, handlers, _, offered⟩ := catcher?_eq_some_iff.mp found
    have member : h ∈ m.handlers.items := by rw [handlers]; simp
    obtain ⟨_, offers⟩ := (clauseFor?_eq_some_iff (inside h member)).mp offered
    exact ⟨h, member, offers.catchable⟩
  · rintro ⟨h, member, catchable⟩
    cases found : m.catcher? cause.errorType site m.handlers.items with
    | none =>
        have passed := catcher?_eq_none_iff.mp found h member
        exact absurd catchable ((clauseFor?_eq_none_iff (inside h member)).mp passed)
    | some selected =>
        obtain ⟨g, clause, older⟩ := selected
        obtain ⟨newer, handlers, _, offered⟩ := catcher?_eq_some_iff.mp found
        have member' : g ∈ m.handlers.items := by rw [handlers]; simp
        obtain ⟨owner, offers⟩ := (clauseFor?_eq_some_iff (inside g member')).mp offered
        obtain ⟨low, high⟩ := slots g member' clause offers.listed
        obtain ⟨bound, entered⟩ := enterCatch?_isSome low high owner cause.message
        exact ⟨_, by rw [dispatch_of_catcher? found offers.owned, entered]⟩
  · intro m' caught
    obtain ⟨h, clause, older, owner, bound, found, owned, entered, rfl⟩ := dispatch_caught caught
    obtain ⟨newer, handlers, passed, offered⟩ := catcher?_eq_some_iff.mp found
    have member : h ∈ m.handlers.items := by rw [handlers]; simp
    obtain ⟨owner', offers⟩ := (clauseFor?_eq_some_iff (inside h member)).mp offered
    cases owned.symm.trans offers.owned
    refine ⟨newer, h, older, owner, clause, handlers, fun g newer_ => ?_, offers,
      resumed_resumes owned entered⟩
    have member' : g ∈ m.handlers.items := by rw [handlers]; simp [newer_]
    exact (clauseFor?_eq_none_iff (inside g member')).mp (passed g newer_)
  · intro none_ frame
    exact raise_of_uncaught
      (fun h member => (clauseFor?_eq_none_iff (inside h member)).mpr (none_ h member)) frame

/-- The inner handler takes missing keys only, so the fault reaches the one of the main chunk. -/
theorem dispatch_exact_in_call :
    ∃ h ∈ (Sample.after 6).handlers.items, (Sample.after 6).Catchable .runtime 6 h :=
  (dispatch_exact (reaches_bracketed (Sample.reaches_after 6 rfl)) (.thrown [0x78]) 6
    (by decide +kernel)).1.mp ⟨_, rfl⟩

/-- The program whose outer clause binds a slot beyond what can be set aside, in its try region. -/
private def unbindable : Machine :=
  (runSteps Sample.setup 2 ((Machine.new { heap := {}, files := .empty [] }).start
    { Sample.main with regions := some #[⟨some #[⟨11, noIndex, maxValues⟩], noIndex⟩] })).2

/-- It is not enough that slots are not negative: a clause that matches does not catch the fault where
it binds a slot that cannot exist. -/
theorem dispatch_exact_needs_bound :
    ¬ ∀ (s : Setup) (m : Machine) (cause : Cause) (site : Int), m.Bracketed s →
      (∀ h ∈ m.handlers.items, ∀ c ∈ h.region.clauses, noIndex ≤ c.slot) →
      ((∃ m', m.dispatch cause site = .caught m') ↔
        ∃ h ∈ m.handlers.items, m.Catchable cause.errorType site h) := by
  intro exact_
  have inv : unbindable.Bracketed Sample.setup :=
    reaches_bracketed (reaches_iff_runSteps.mpr ⟨2, Prod.ext rfl rfl⟩)
  have catchable : ∃ h ∈ unbindable.handlers.items, unbindable.Catchable .runtime 6 h :=
    ⟨_, List.mem_cons_self, (isEligible_iff (by decide +kernel)).mp (by decide +kernel), _, rfl, _,
      List.mem_cons_self, .inl rfl⟩
  obtain ⟨m', caught⟩ :=
    (exact_ Sample.setup unbindable (.thrown [0x78]) 6 inv (by decide +kernel)).mpr catchable
  have broken : unbindable.dispatch (.thrown [0x78]) 6 = .broken := rfl
  cases broken.symm.trans caught

end Machine

end TableMachine
