import Mathlib.Data.List.Basic
import TableMachine.Native.Probe
import TableMachine.Proofs.Globals
import TableMachine.Proofs.Leftovers

/-! # What natives declare

A native tells the machine by requests which columns refer to which and which are primary keys. The requests of one
call lie in the channel until the call is over. Then their tables are named after the declared globals that hold
them, and the results are added to those that the machine shows.

Main statement: when a run is over, the machine shows the requests of all native calls of the run, one after the
other, each resolved when its call ended. `NativeCall` and `nativeCalls` say which calls those are by the machine
before each step, `Request` says what a native may ask for, and `Sifted` that some of the requests have no result.
-/

namespace TableMachine

/-! ## Requests -/

/-- What a native asks the machine to take down. -/
inductive Request where
  /-- The column `foreign` refers to the column `key`. -/
  | relate (key foreign : Value)
  | primaryKey (column : Value)

namespace Request

/-- A request about columns is one for a relation. -/
def relation? : Request → Option DeclaredRelation
  | .relate (.column key keyName) (.column foreign foreignName) =>
      some ⟨⟨key, keyName⟩, ⟨foreign, foreignName⟩⟩
  | _ => none

/-- A request about a column is one for a primary key. -/
def key? : Request → Option ColumnRef
  | .primaryKey (.column table name) => some ⟨table, name⟩
  | _ => none

end Request

/-- The request that is for this relation. -/
def DeclaredRelation.request (d : DeclaredRelation) : Request :=
  .relate (.column d.key.table d.key.name) (.column d.foreign.table d.foreign.name)

/-- The request that is for this primary key. -/
def ColumnRef.request (c : ColumnRef) : Request := .primaryKey (.column c.table c.name)

/-- The report after a request; one that is not about columns is refused and changes nothing. -/
def Report.ask (r : Report) : Request → Report
  | .relate key foreign => (r.relate? key foreign).getD r
  | .primaryKey column => (r.primaryKey? column).getD r

/-- The call of a native. -/
structure NativeCall where
  native : Native
  /-- The host before the call. -/
  host : Host
  arguments : List Value

namespace NativeCall

/-- What the call leaves behind. -/
def report (c : NativeCall) : Report := c.native.run c.host.reset c.arguments

/-- The relations that are in the channel when the call is over. -/
def relations (c : NativeCall) : List DeclaredRelation := c.report.host.channel.relations

/-- The primary keys that are in the channel when the call is over. -/
def primaryKeys (c : NativeCall) : List ColumnRef := c.report.host.channel.primaryKeys

/-- These are the requests of the call in their order: it starts without any, and whatever else it does is not about
declarations. -/
structure Asks (c : NativeCall) (requests : List Request) : Prop where
  relations : c.relations =
    (requests.foldl Report.ask { host := c.host.reset }).host.channel.relations
  primaryKeys : c.primaryKeys =
    (requests.foldl Report.ask { host := c.host.reset }).host.channel.primaryKeys

end NativeCall

/-- The second list has a result for every item of the first that is not dropped, in the same order. -/
inductive Sifted {α β : Type} (keeps : α → β → Prop) (drops : α → Prop) : List α → List β → Prop where
  | nil : Sifted keeps drops [] []
  | keep {a b as bs} (kept : keeps a b) (rest : Sifted keeps drops as bs) : Sifted keeps drops (a :: as) (b :: bs)
  | drop {a as bs} (dropped : drops a) (rest : Sifted keeps drops as bs) : Sifted keeps drops (a :: as) bs

namespace Machine

/-! ## Names of tables -/

/-- `name` is the name under which the lowest slot is declared that holds the table and is declared at all. -/
def Knows (globals : Array Value) (names : NameMap) (t : TableRef) (name : Text) : Prop :=
  ∃ slot : Nat, globals[slot]? = some (.table t) ∧ names.get? slot = some name ∧
    ∀ lower < slot, globals[lower]? = some (.table t) → names.get? lower = none

/-- No slot that holds the table is declared. -/
def Ignores (globals : Array Value) (names : NameMap) (t : TableRef) : Prop :=
  ∀ slot : Nat, globals[slot]? = some (.table t) → names.get? slot = none

/-- What becomes of a relation that was asked for, when these were the globals. -/
structure Relates (names : NameMap) (asked : Array Value × DeclaredRelation) (r : Relation) : Prop where
  target : Knows asked.1 names asked.2.key.table r.targetTable
  targetColumn : r.targetColumn = asked.2.key.name
  source : Knows asked.1 names asked.2.foreign.table r.sourceTable
  sourceColumn : r.sourceColumn = asked.2.foreign.name

/-- What becomes of a primary key that was asked for, when these were the globals. -/
structure Designates (names : NameMap) (asked : Array Value × ColumnRef) (k : PrimaryKey) : Prop where
  table : Knows asked.1 names asked.2.table k.table
  column : k.column = asked.2.name

/-- One of the two tables has no name. -/
def LosesEnd (names : NameMap) (asked : Array Value × DeclaredRelation) : Prop :=
  Ignores asked.1 names asked.2.key.table ∨ Ignores asked.1 names asked.2.foreign.table

/-- The table has no name. -/
def LosesTable (names : NameMap) (asked : Array Value × ColumnRef) : Prop :=
  Ignores asked.1 names asked.2.table

/-! ## Calls in a run -/

/-- The call of a native that the machine makes in its next step. -/
def nativeCall? (s : Setup) (m : Machine) : Option NativeCall :=
  match m.frames.top?, m.stack.top? with
  | some frame, some (.native index) =>
    if frame.ip < 0 ∨ index < 0 then none
    else match frame.chunk.instruction? frame.ip.toNat, s.natives[index.toNat]? with
      | some ⟨.call, operand⟩, some native =>
        if m.stack.height < operand.toNat + 1 then none
        else some ⟨native, m.host, (m.stack.drop 1).latest operand.toNat⟩
      | _, _ => none
  | _, _ => none

/-- The native call of the step that led from `m` to `m'`, with the globals when it is over. -/
def callsBetween (s : Setup) (m m' : Machine) : List (NativeCall × Array Value) :=
  (m.nativeCall? s).toList.map (·, m'.globals)

/-- The native calls of a run, each with the globals when it is over. -/
def nativeCalls (s : Setup) : (fuel : Nat) → Machine → List (NativeCall × Array Value)
  | 0, _ => []
  | fuel + 1, m =>
    match m.step s with
    | .next m' => m.callsBetween s m' ++ nativeCalls s fuel m'
    | .finished _ m' | .failed _ m' => m.callsBetween s m'
    | .broken => []

/-- The machine shows these requests in their order, each with the globals when its call was over. -/
structure ShowsRequests (names : NameMap) (requests : List (Array Value × Request)) (m : Machine) : Prop where
  relations : Sifted (Relates names) (LosesEnd names)
    (requests.filterMap fun asked => asked.2.relation?.map (asked.1, ·)) m.relations
  primaryKeys : Sifted (Designates names) (LosesTable names)
    (requests.filterMap fun asked => asked.2.key?.map (asked.1, ·)) m.primaryKeys

end Machine

/-! ## Sifting -/

namespace Sifted

variable {α β : Type} {keeps : α → β → Prop} {drops : α → Prop} {as as' : List α} {bs bs' : List β}

theorem append (first : Sifted keeps drops as bs) (second : Sifted keeps drops as' bs') :
    Sifted keeps drops (as ++ as') (bs ++ bs') := by
  induction first with
  | nil => exact second
  | keep kept _ ih => exact .keep kept ih
  | drop dropped _ ih => exact .drop dropped ih

theorem filterMap {γ : Type} {g : γ → α} {f : γ → Option β} (kept : ∀ c b, f c = some b → keeps (g c) b)
    (dropped : ∀ c, f c = none → drops (g c)) (cs : List γ) : Sifted keeps drops (cs.map g) (cs.filterMap f) := by
  induction cs with
  | nil => exact .nil
  | cons c rest ih =>
      cases found : f c with
      | none =>
          rw [List.filterMap_cons_none found]
          exact .drop (dropped c found) ih
      | some b =>
          rw [List.filterMap_cons_some found]
          exact .keep (kept c b found) ih

end Sifted

/-! ## Requests in the channel -/

namespace Report

/-- A request about columns is taken down last, and any other one is not. -/
theorem channel_ask (r : Report) (request : Request) :
    (r.ask request).host.channel.relations = r.host.channel.relations ++ request.relation?.toList ∧
      (r.ask request).host.channel.primaryKeys = r.host.channel.primaryKeys ++ request.key?.toList := by
  have refused : r.host.channel.relations = r.host.channel.relations ++ [] ∧
      r.host.channel.primaryKeys = r.host.channel.primaryKeys ++ [] :=
    ⟨(List.append_nil _).symm, (List.append_nil _).symm⟩
  cases request with
  | relate key foreign =>
      cases key with
      | column =>
          cases foreign with
          | column => exact ⟨rfl, refused.2⟩
          | _ => exact refused
      | _ => exact refused
  | primaryKey column =>
      cases column with
      | column => exact ⟨refused.1, rfl⟩
      | _ => exact refused

/-- Requests are taken down in their order, after those that are there. -/
theorem foldl_ask (r : Report) (requests : List Request) :
    (requests.foldl ask r).host.channel.relations =
        r.host.channel.relations ++ requests.filterMap Request.relation? ∧
      (requests.foldl ask r).host.channel.primaryKeys =
        r.host.channel.primaryKeys ++ requests.filterMap Request.key? := by
  induction requests generalizing r with
  | nil => exact ⟨(List.append_nil _).symm, (List.append_nil _).symm⟩
  | cons request rest ih =>
      obtain ⟨relations, keys⟩ := ih (r.ask request)
      obtain ⟨first, firstKey⟩ := channel_ask r request
      rw [List.foldl_cons, relations, keys, first, firstKey, List.append_assoc, List.append_assoc]
      constructor
      · cases found : request.relation? with
        | none => rw [List.filterMap_cons_none found]; rfl
        | some d => rw [List.filterMap_cons_some found]; rfl
      · cases found : request.key? with
        | none => rw [List.filterMap_cons_none found]; rfl
        | some d => rw [List.filterMap_cons_some found]; rfl

end Report

namespace NativeCall

variable {c : NativeCall} {requests : List Request}

theorem asks_iff : c.Asks requests ↔
    c.relations = requests.filterMap Request.relation? ∧
      c.primaryKeys = requests.filterMap Request.key? := by
  obtain ⟨relations, keys⟩ := Report.foldl_ask { host := c.host.reset } requests
  constructor
  · intro asks
    exact ⟨asks.relations.trans relations, asks.primaryKeys.trans keys⟩
  · rintro ⟨first, second⟩
    exact ⟨first.trans relations.symm, second.trans keys.symm⟩

/-- Whatever a native leaves in the channel, it could have asked for. -/
theorem exists_asks (c : NativeCall) : ∃ requests, c.Asks requests := by
  have keys : c.primaryKeys.filterMap (Request.relation? ∘ ColumnRef.request) = [] :=
    List.filterMap_eq_nil_iff.mpr fun _ _ => rfl
  have relations : c.relations.filterMap (Request.key? ∘ DeclaredRelation.request) = [] :=
    List.filterMap_eq_nil_iff.mpr fun _ _ => rfl
  refine ⟨c.relations.map (·.request) ++ c.primaryKeys.map (·.request), asks_iff.mpr ⟨?_, ?_⟩⟩
  · rw [List.filterMap_append, List.filterMap_map, List.filterMap_map, keys, List.append_nil]
    exact (List.filterMap_some ..).symm
  · rw [List.filterMap_append, List.filterMap_map, List.filterMap_map, relations, List.nil_append]
    exact (List.filterMap_some ..).symm

end NativeCall

namespace Machine

variable {s : Setup} {m m' n : Machine} {main : Chunk} {t : TableRef} {name : Text} {c : NativeCall}
  {frame : Frame} {i : Chunk.Instruction} {index : Int} {native : Native}

/-! ## Names of tables -/

theorem explicitNameOf?_eq_some (named : m.explicitNameOf? t = some name) :
    Knows m.globals m.explicitNames t name := by
  obtain ⟨before, ⟨v, slot⟩, after, split, found, skipped⟩ := List.findSome?_eq_some_iff.mp named
  have place (p : Nat) : (before ++ (v, slot) :: after)[p]? = m.globals[p]?.map fun v => (v, p) := by
    rw [← split, List.getElem?_zipIdx, Array.getElem?_toList, Nat.zero_add]
  simp only [Option.ite_none_right_eq_some] at found
  obtain ⟨rfl, named⟩ := found
  have here := place before.length
  rw [List.getElem?_append_right (Nat.le_refl _), Nat.sub_self, List.getElem?_cons_zero] at here
  obtain ⟨_, held, same⟩ := Option.map_eq_some_iff.mp here.symm
  cases same
  refine ⟨before.length, held, named, fun lower earlier holds => ?_⟩
  have there := place lower
  rw [List.getElem?_append_left earlier, holds] at there
  simpa using skipped _ (List.mem_of_getElem? there)

theorem explicitNameOf?_eq_none (unnamed : m.explicitNameOf? t = none) : Ignores m.globals m.explicitNames t := by
  intro slot held
  have member : (Value.table t, slot) ∈ m.globals.toList.zipIdx := by
    rw [List.mem_zipIdx_iff_getElem?, Array.getElem?_toList]
    exact held
  have none_ := List.findSome?_eq_none_iff.mp unnamed _ member
  simpa using none_

theorem resolveRelation?_eq_some {d : DeclaredRelation} {r : Relation} (resolved : m.resolveRelation? d = some r) :
    Relates m.explicitNames (m.globals, d) r := by
  obtain ⟨target, key, resolved⟩ := Option.bind_eq_some_iff.mp resolved
  obtain ⟨source, foreign, resolved⟩ := Option.bind_eq_some_iff.mp resolved
  cases resolved
  exact ⟨explicitNameOf?_eq_some key, rfl, explicitNameOf?_eq_some foreign, rfl⟩

theorem resolveRelation?_eq_none {d : DeclaredRelation} (resolved : m.resolveRelation? d = none) :
    LosesEnd m.explicitNames (m.globals, d) := by
  unfold resolveRelation? at resolved
  cases key : m.explicitNameOf? d.key.table with
  | none => exact .inl (explicitNameOf?_eq_none key)
  | some target =>
      cases foreign : m.explicitNameOf? d.foreign.table with
      | none => exact .inr (explicitNameOf?_eq_none foreign)
      | some source =>
          rw [key, foreign] at resolved
          cases resolved

theorem resolvePrimaryKey?_eq_some {c : ColumnRef} {k : PrimaryKey} (resolved : m.resolvePrimaryKey? c = some k) :
    Designates m.explicitNames (m.globals, c) k := by
  obtain ⟨table, named, resolved⟩ := Option.bind_eq_some_iff.mp resolved
  cases resolved
  exact ⟨explicitNameOf?_eq_some named, rfl⟩

theorem resolvePrimaryKey?_eq_none {c : ColumnRef} (resolved : m.resolvePrimaryKey? c = none) :
    LosesTable m.explicitNames (m.globals, c) := by
  unfold resolvePrimaryKey? at resolved
  cases named : m.explicitNameOf? c.table with
  | none => exact explicitNameOf?_eq_none named
  | some table =>
      rw [named] at resolved
      cases resolved

/-! ## The call of a native -/

theorem Fetches.native_none (fetches : m.Fetches frame i) (call : i.op = .call)
    (enough : needed i.op i.operand ≤ m.stack.height) (top : m.stack.top? = some (.native index))
    (none_ : m.nativeCall? s = none) : (if index < 0 then none else s.natives[index.toNat]?) = none := by
  obtain ⟨op, operand⟩ := i
  cases call
  have pointer : ¬ frame.ip < 0 := Int.not_lt.mpr fetches.pointer
  have enough : ¬ m.stack.height < operand.toNat + 1 := Nat.not_lt.mpr enough
  split
  · rfl
  · rename_i positive
    simp only [nativeCall?, fetches.top, fetches.instruction, top, pointer, positive, or_self, if_false] at none_
    cases found : s.natives[index.toNat]? with
    | none => rfl
    | some native => simp [found, enough] at none_

theorem nativeCall?_eq_some (called : m.nativeCall? s = some c) :
    ∃ frame i index, m.Fetches frame i ∧ i.op = .call ∧ needed i.op i.operand ≤ m.stack.height ∧
      m.stack.top? = some (.native index) ∧
      (if index < 0 then none else s.natives[index.toNat]?) = some c.native ∧ c.host = m.host ∧
      c.arguments = (m.stack.drop 1).latest i.operand.toNat := by
  unfold nativeCall? at called
  split at called
  · rename_i frame index top callee
    split at called
    · cases called
    · rename_i positive
      rw [not_or] at positive
      split at called
      · rename_i operand native instruction found
        split at called
        · cases called
        · rename_i enough
          cases called
          exact ⟨frame, ⟨.call, operand⟩, index, ⟨top, Int.not_lt.mp positive.1, instruction⟩, rfl,
            Nat.not_lt.mp enough, callee, by rw [if_neg positive.2, found], rfl, rfl⟩
      · cases called
  · cases called

theorem call_of_native (s : Setup) (top : m.stack.top? = some (.native index)) (count : Nat) :
    m.call s count = (m.drop (count + 1)).callNative s index ((m.stack.drop 1).latest count) := by
  unfold call
  rw [top]

/-- What the machine shows of declarations, and the names by which it resolves them. -/
def declared (m : Machine) : NameMap × List Relation × List PrimaryKey := (m.explicitNames, m.relations, m.primaryKeys)

theorem inert_declared : Inert declared := fun _ _ _ _ _ _ _ _ => rfl

/-- A native that is called adds what it declared, and nothing else. -/
theorem callNative_declared (found : (if index < 0 then none else s.natives[index.toNat]?) = some native)
    (arguments : List Value) :
    (m.callNative s index arguments).Shows declared (m.explicitNames,
      m.relations ++ (NativeCall.mk native m.host arguments).relations.filterMap m.resolveRelation?,
      m.primaryKeys ++ (NativeCall.mk native m.host arguments).primaryKeys.filterMap m.resolvePrimaryKey?) := by
  unfold callNative
  rw [found]
  simp only
  split
  · rfl
  · rfl

theorem storeGlobal?_declared {slot : Int} {v : Value} (stored : m.storeGlobal? slot v = some m') :
    declared m' = declared m := by
  unfold storeGlobal? at stored
  obtain ⟨globals, _, rfl⟩ := Option.map_eq_some_iff.mp stored
  split
  · rfl
  · rfl

/-! ## Steps -/

/-- Nothing is added in a step that calls no native. -/
theorem step_declared_of_none (none_ : m.nativeCall? s = none) : (m.step s).Shows declared (declared m) := by
  refine inert_declared.step m fun frame i fetches enough => inert_declared.execute rfl ?_ ?_
  · exact fun _ v m' stored => storeGlobal?_declared (m := (m.fetched frame i).drop 1) stored
  · intro call index top
    unfold callNative
    rw [fetches.native_none call enough top none_]
    rfl

/-- What a call declared is added in the step that makes it. -/
theorem step_declared_of_some (called : m.nativeCall? s = some c) : (m.step s).Shows declared (m.explicitNames,
      m.relations ++ c.relations.filterMap m.resolveRelation?,
      m.primaryKeys ++ c.primaryKeys.filterMap m.resolvePrimaryKey?) := by
  obtain ⟨frame, i, index, fetches, call, enough, top, found, host, arguments⟩ := nativeCall?_eq_some called
  obtain ⟨native, _, _⟩ := c
  cases host
  cases arguments
  have executed := call_of_native (m := m.fetched frame i) s top i.operand.toNat
  rw [fetches.step_eq_execute enough, call]
  refine inert_declared.settled ?_ frame _
  simp only [execute]
  rw [executed]
  exact callNative_declared found _

/-- The call of a native stores no global. -/
theorem step_globals_of_some (called : m.nativeCall? s = some c) :
    (m.step s).Shows Machine.globals m.globals := by
  obtain ⟨frame, i, index, fetches, call, enough, _⟩ := nativeCall?_eq_some called
  rw [fetches.step_eq_execute enough, call]
  exact inert_globals.settled (execute_hasGlobals (m := m.fetched frame i) (by decide)) frame _

/-- Whatever earlier calls left in the channel, the next one goes the same way. -/
theorem step_eq_of_alike (alike : m.Alike n) (called : (m.nativeCall? s).isSome) : m.step s = n.step s := by
  obtain ⟨c, called⟩ := Option.isSome_iff_exists.mp called
  obtain ⟨frame, i, index, fetches, call, enough, top, found, _⟩ := nativeCall?_eq_some called
  obtain ⟨channel, rfl⟩ := alike
  have fetches' : (m.withChannel channel).Fetches frame i := ⟨fetches.top, fetches.pointer, fetches.instruction⟩
  rw [fetches.step_eq_execute enough, fetches'.step_eq_execute enough, call]
  congr 1
  unfold execute
  simp only
  rw [call_of_native (m := m.fetched frame i) s top,
    call_of_native (m := (m.withChannel channel).fetched frame i) s top]
  unfold callNative
  rw [found]
  rfl

/-! ## Runs -/

/-- The way from `m` to `m'` adds what these calls declared, and changes nothing else that the machine shows. -/
structure Adds (calls : List (NativeCall × Array Value)) (m m' : Machine) : Prop where
  names : m'.explicitNames = m.explicitNames
  relations : ∃ more, m'.relations = m.relations ++ more ∧
    Sifted (Relates m.explicitNames) (LosesEnd m.explicitNames)
      (calls.flatMap fun call => call.1.relations.map (call.2, ·)) more
  primaryKeys : ∃ more, m'.primaryKeys = m.primaryKeys ++ more ∧
    Sifted (Designates m.explicitNames) (LosesTable m.explicitNames)
      (calls.flatMap fun call => call.1.primaryKeys.map (call.2, ·)) more

namespace Adds

variable {calls calls' : List (NativeCall × Array Value)}

theorem of_declared (same : declared m' = declared m) : Adds [] m m' := by
  obtain ⟨names, shown⟩ := Prod.mk.inj same
  obtain ⟨relations, keys⟩ := Prod.mk.inj shown
  exact ⟨names, ⟨[], relations.trans (List.append_nil _).symm, .nil⟩,
    ⟨[], keys.trans (List.append_nil _).symm, .nil⟩⟩

/-- A call is resolved by the globals of the machine that makes it, since it stores none. -/
theorem of_call (globals : m'.globals = m.globals) (shown : declared m' = (m.explicitNames,
      m.relations ++ c.relations.filterMap m.resolveRelation?,
      m.primaryKeys ++ c.primaryKeys.filterMap m.resolvePrimaryKey?)) : Adds [(c, m'.globals)] m m' := by
  obtain ⟨names, shown⟩ := Prod.mk.inj shown
  obtain ⟨relations, keys⟩ := Prod.mk.inj shown
  refine ⟨names, ⟨_, relations, ?_⟩, ⟨_, keys, ?_⟩⟩
  · rw [List.flatMap_singleton, globals]
    exact .filterMap (fun _ _ => resolveRelation?_eq_some) (fun _ => resolveRelation?_eq_none) _
  · rw [List.flatMap_singleton, globals]
    exact .filterMap (fun _ _ => resolvePrimaryKey?_eq_some) (fun _ => resolvePrimaryKey?_eq_none) _

theorem append (first : Adds calls m m') (second : Adds calls' m' n) : Adds (calls ++ calls') m n := by
  obtain ⟨names, ⟨more, relations, sifted⟩, ⟨moreKeys, keys, siftedKeys⟩⟩ := first
  obtain ⟨names', ⟨more', relations', sifted'⟩, ⟨moreKeys', keys', siftedKeys'⟩⟩ := second
  rw [names] at sifted' siftedKeys'
  refine ⟨names'.trans names, ⟨more ++ more', ?_, ?_⟩, ⟨moreKeys ++ moreKeys', ?_, ?_⟩⟩
  · rw [relations', relations, List.append_assoc]
  · rw [List.flatMap_append]
    exact sifted.append sifted'
  · rw [keys', keys, List.append_assoc]
  · rw [List.flatMap_append]
    exact siftedKeys.append siftedKeys'

/-- The end of a run clears the stacks, which show nothing of declarations. -/
theorem settle (adds : Adds calls m m') : Adds calls m m'.settle := ⟨adds.names, adds.relations, adds.primaryKeys⟩

end Adds

/-- One step adds what its call declared, if it makes one. -/
theorem step_adds (s : Setup) (m : Machine) :
    match m.step s with
    | .next m' | .finished _ m' | .failed _ m' => Adds (m.callsBetween s m') m m'
    | .broken => True := by
  unfold callsBetween
  cases called : m.nativeCall? s with
  | none =>
      have shown := step_declared_of_none called
      cases stepped : m.step s with
      | broken => trivial
      | _ =>
          rw [stepped] at shown
          exact .of_declared shown
  | some c =>
      have globals := step_globals_of_some called
      have shown := step_declared_of_some called
      cases stepped : m.step s with
      | broken => trivial
      | _ =>
          rw [stepped] at globals shown
          exact .of_call globals shown

/-- A run adds what its calls declared, one call after the other. -/
theorem runSteps_adds (s : Setup) (fuel : Nat) (m : Machine) :
    Adds (nativeCalls s fuel m) m (runSteps s fuel m).2 := by
  induction fuel generalizing m with
  | zero => exact .of_declared rfl
  | succ fuel ih =>
      have step := step_adds s m
      rw [nativeCalls, runSteps]
      cases stepped : m.step s with
      | next m' =>
          rw [stepped] at step
          exact step.append (ih m')
      | finished v m' =>
          rw [stepped] at step
          exact step
      | failed f m' =>
          rw [stepped] at step
          exact step.settle
      | broken => exact .of_declared rfl

/-- The requests of one kind, call by call. -/
theorem filterMap_requests {α : Type} {calls : List (NativeCall × Array Value)} {requests : NativeCall → List Request}
    {kind : Request → Option α} {filled : NativeCall → List α}
    (same : ∀ call ∈ calls, filled call.1 = (requests call.1).filterMap kind) :
    (calls.flatMap fun call => (requests call.1).map (call.2, ·)).filterMap
        (fun asked => (kind asked.2).map (asked.1, ·)) =
      calls.flatMap fun call => (filled call.1).map (call.2, ·) := by
  rw [List.filterMap_flatMap]
  refine List.flatMap_congr fun call member => ?_
  rw [same call member, List.filterMap_map, List.map_filterMap]
  rfl

/-- When a run is over, the machine shows the requests of all native calls of the run, also of those that fail, in
their order and each resolved by the globals when its call was over: a table has the name of the lowest declared slot
that holds it, and what is about a table without such a slot is dropped. The requests of a call may be any that fill
the channel as the call does, and there are always some. What one call left in the channel changes nothing for the
next one. A program without a main chunk is refused before it runs. -/
theorem run_shows_requests {main : Chunk} (s : Setup) (fuel : Nat) (m : Machine)
    (begun : s.loaded.program.main = some main) :
    (∃ requests : NativeCall → List Request, ∀ call : NativeCall, call.Asks (requests call)) ∧
    (∀ requests : NativeCall → List Request,
      (∀ call ∈ nativeCalls s fuel (m.start main), call.1.Asks (requests call.1)) →
      ShowsRequests main.explicitNames
        ((nativeCalls s fuel (m.start main)).flatMap fun call => (requests call.1).map (call.2, ·)) (m.run s fuel).2) ∧
    ∀ a b : Machine, a.Alike b → (a.nativeCall? s).isSome → a.step s = b.step s := by
  refine ⟨⟨fun call => call.exists_asks.choose, fun call => call.exists_asks.choose_spec⟩, fun requests asks => ?_,
    fun _ _ => step_eq_of_alike⟩
  obtain ⟨-, ⟨relations, shown, sifted⟩, ⟨keys, shownKeys, siftedKeys⟩⟩ := runSteps_adds s fuel (m.start main)
  have whole : m.run s fuel = runSteps s fuel (m.start main) := by rw [run, begun]
  rw [whole]
  constructor
  · rw [shown, filterMap_requests fun call member => (NativeCall.asks_iff.mp (asks call member)).1]
    exact sifted
  · rw [shownKeys, filterMap_requests fun call member => (NativeCall.asks_iff.mp (asks call member)).2]
    exact siftedKeys

end Machine

/-! ## A table in three slots

Three calls declare a relation and a primary key each. The second one is about a table in a slot that is not declared,
and the last one fails afterwards. One table is in three slots, of which the lowest is not declared.
-/

namespace Notices

/-- The column `name` of the table in a global slot. -/
def column (slot name : UInt8) : List UInt8 := [0x12, slot, 0, 0x02, name, 0, 0x02, 0, 0, 0x50, 2]

def declare : List UInt8 := [0x02, 1, 0, 0x50]

def main : Chunk :=
  { Chunk.empty with
    code := some (column 0 2 ++ column 2 3 ++ declare ++ [2] ++ column 3 2 ++ column 0 3 ++ declare ++ [2] ++
      column 2 2 ++ column 0 3 ++ [0x12, 3, 0] ++ declare ++ [3]).toArray
    constants := some #[Literal.constant (.native 0), Literal.constant (.native 1), Literal.constant (.string "id"),
      Literal.constant (.string "of")]
    explicit := some ⟨[(1, "users"), (2, "orders"), (4, "late")], by decide⟩ }

def setup : Setup where
  config := {}
  natives := #[Native.column, Native.declare]
  loaded := ⟨0, ⟨some main, #[]⟩⟩

def machine : Machine :=
  { Machine.new { heap := {}, files := .empty [] } with
    globals := #[.table ⟨7⟩, .table ⟨7⟩, .table ⟨8⟩, .table ⟨9⟩, .table ⟨7⟩] }

end Notices

namespace Machine

theorem run_shows_requests_of_notices :
    (∃ t message line trace, (Notices.machine.run Notices.setup 32).1 = .fault ⟨.reported t message, line, trace⟩) ∧
    (nativeCalls Notices.setup 32 (Notices.machine.start Notices.main)).length = 9 ∧
    (Notices.machine.run Notices.setup 32).2.relations =
      [⟨"orders", "of", "users", "id"⟩, ⟨"users", "of", "orders", "id"⟩] ∧
    (Notices.machine.run Notices.setup 32).2.primaryKeys = [⟨"users", "id"⟩, ⟨"orders", "id"⟩] ∧
    ∃ requests : NativeCall → List Request, ShowsRequests Notices.main.explicitNames
      ((nativeCalls Notices.setup 32 (Notices.machine.start Notices.main)).flatMap fun call =>
        (requests call.1).map (call.2, ·)) (Notices.machine.run Notices.setup 32).2 := by
  obtain ⟨⟨requests, asks⟩, showsRequests, -⟩ :=
    run_shows_requests Notices.setup 32 Notices.machine (show _ = some Notices.main from rfl)
  exact ⟨⟨_, _, _, _, rfl⟩, rfl, rfl, rfl, requests, showsRequests requests fun call _ => asks call.1⟩

end Machine

end TableMachine
