import Mathlib.Data.List.Chain
import TableMachine.Manifest
import TableMachine.Proofs.Paths

/-! # The search for a manifest

From the absolute path of a directory the search takes the directory of the path again and again, and
ends when that changes nothing, which is at the root. It passes the `Path.ancestors` in their order and
stops at the first that has a manifest. What it asks for on the way is told by running it with actions
that note each question.
-/

namespace TableMachine

namespace Path

variable {kept : List Text} {c : Text}

/-! ## The way up -/

@[simp] theorem ancestors_root : ancestors [slash] = [[slash]] := by decide

theorem ancestors_assemble (settled : Kept true (c :: kept)) :
    ancestors (assemble true (kept.reverse ++ [c])) =
      assemble true (kept.reverse ++ [c]) :: ancestors (assemble true kept.reverse) := by
  have parts := (cleanComponents_assemble settled).2
  rw [List.reverse_cons] at parts
  simp only [ancestors, parts, (cleanComponents_assemble settled.tail).2]
  rw [List.length_append, List.length_singleton, List.range_succ, List.reverse_append,
    List.reverse_singleton, List.singleton_append, List.map_cons]
  congr 1
  · rw [List.take_of_length_le (by simp)]
  · refine List.map_congr_left fun n member => ?_
    have inside : n < kept.reverse.length + 1 := by simpa using member
    rw [List.take_append_of_le_length (by omega)]

theorem directory_ne (settled : Kept true (c :: kept)) :
    directory (assemble true (kept.reverse ++ [c])) ≠ assemble true (kept.reverse ++ [c]) := by
  rw [directory_assemble settled]
  intro same
  have longer := (cleanComponents_assemble settled).2
  rw [List.reverse_cons, ← same, (cleanComponents_assemble settled.tail).2] at longer
  simp at longer

/-- Seen from a directory that is given from the root, every path is one from the root and clean. -/
theorem exists_absolute {working : Text} (rooted : isAbsolute working) (path : Text) :
    ∃ kept, Kept true kept ∧ absolute working path = assemble true kept.reverse := by
  have cleaned : ∀ p : Text, isAbsolute p →
      ∃ kept, Kept true kept ∧ clean p = assemble true kept.reverse := by
    intro p rooted
    have settled := kept_cleanComponents p
    rw [rooted] at settled
    exact ⟨_, settled, by rw [List.reverse_reverse, clean, rooted]⟩
  unfold absolute
  split
  · rename_i given
    exact cleaned path given
  · cases working with
    | nil => cases rooted
    | cons b rest => exact cleaned ((b :: rest) ++ slash :: path) rooted

/-- The ancestors lead from the path to the root, each the directory of the one before. -/
theorem ancestors_chain (settled : Kept true kept) :
    (ancestors (assemble true kept.reverse)).head? = some (assemble true kept.reverse) ∧
      (ancestors (assemble true kept.reverse)).getLast? = some [slash] ∧
      (ancestors (assemble true kept.reverse)).IsChain fun below above => above = directory below := by
  induction kept with
  | nil => exact ⟨rfl, rfl, .singleton _⟩
  | cons c kept ih =>
      obtain ⟨first, last, linked⟩ := ih settled.tail
      rw [List.reverse_cons, ancestors_assemble settled]
      obtain ⟨rest, ancestors_eq⟩ := List.head?_eq_some_iff.mp first
      rw [ancestors_eq] at last linked ⊢
      refine ⟨rfl, by rw [List.getLast?_cons_cons, last], ?_⟩
      exact .cons_cons (directory_assemble settled).symm linked

end Path

namespace Manifest

open TableMachine.Path

/-! ## The search as a walk -/

/-- Looks into the directories of a list, until one `holds`, which is then loaded. -/
def searchAlong {m : Type → Type} [Monad m] {α : Type} (holds : Text → m Bool) (load : Text → m α) :
    List Text → m (Option α)
  | [] => return none
  | d :: ds => do
    if ← holds d then
      return some (← load d)
    else
      searchAlong holds load ds

/-- Whatever is done to look and to load, the search does it along the ancestors. -/
theorem search_eq_searchAlong {m : Type → Type} [Monad m] {α : Type} (holds : Text → m Bool)
    (load : Text → m α) {kept : List Text} (settled : Kept true kept) :
    search holds load (assemble true kept.reverse) =
      searchAlong holds load (ancestors (assemble true kept.reverse)) := by
  induction kept with
  | nil =>
      have root : assemble true ([] : List Text).reverse = [slash] := rfl
      have end_ : Path.directory [slash] = [slash] := by decide
      rw [root, ancestors_root, search, if_pos end_]
      rfl
  | cons c kept ih =>
      rw [List.reverse_cons, ancestors_assemble settled, search, if_neg (directory_ne settled),
        directory_assemble settled, ih settled.tail]
      rfl

/-! ## What is asked on the way -/

/-- What a search asks for. -/
inductive Inquiry where
  /-- Whether a manifest stands in a directory. -/
  | looked (directory : Text)
  /-- The manifest of a directory. -/
  | loaded (directory : Text)
deriving DecidableEq, Repr

/-- The action that answers for a directory and notes the inquiry. -/
def noted {α : Type} (inquiry : Text → Inquiry) (answer : Text → α) (directory : Text) :
    StateM (List Inquiry) α :=
  modifyGet fun notes => (answer directory, notes ++ [inquiry directory])

/-- The inquiries of the search from a directory, in their order. -/
def inquiries (files : Files) (directory : Text) : List Inquiry :=
  ((search (noted .looked (stands files)) (noted .loaded (load files))
    (Path.absolute files.workingPath directory)).run []).2

variable {files : Files} {below above : List Text} {nearest : Text}

theorem searchAlong_append (empty : ∀ d ∈ below, stands files d = false) (above : List Text) :
    searchAlong (fun d => Except.ok (stands files d)) (load files) (below ++ above) =
      searchAlong (fun d => Except.ok (stands files d)) (load files) above := by
  induction below with
  | nil => rfl
  | cons d ds ih =>
      obtain ⟨absent, empty⟩ := List.forall_mem_cons.mp empty
      refine Eq.trans ?_ (ih empty)
      show (if stands files d = true then _ else _) = _
      rw [if_neg (by rw [absent]; exact Bool.false_ne_true)]
      rfl

theorem run_searchAlong_append (empty : ∀ d ∈ below, stands files d = false) (above : List Text)
    (notes : List Inquiry) :
    (searchAlong (noted .looked (stands files)) (noted .loaded (load files)) (below ++ above)).run notes =
      (searchAlong (noted .looked (stands files)) (noted .loaded (load files)) above).run
        (notes ++ below.map .looked) := by
  induction below generalizing notes with
  | nil => rw [List.map_nil, List.append_nil, List.nil_append]
  | cons d ds ih =>
      obtain ⟨absent, empty⟩ := List.forall_mem_cons.mp empty
      rw [List.map_cons, List.append_cons, ← ih empty]
      show (if stands files d = true then _ else _ : StateM (List Inquiry) _).run _ = _
      rw [if_neg (by rw [absent]; exact Bool.false_ne_true)]
      rfl

theorem searchAlong_found (stands_ : stands files nearest = true) :
    searchAlong (fun d => Except.ok (stands files d)) (load files) (nearest :: above) =
      (load files nearest).map some := by
  show (if stands files nearest = true then _ else _) = _
  rw [if_pos stands_]
  cases load files nearest <;> rfl

theorem run_searchAlong_found (stands_ : stands files nearest = true) (notes : List Inquiry) :
    (searchAlong (noted .looked (stands files)) (noted .loaded (load files)) (nearest :: above)).run
      notes = (some (load files nearest), notes ++ [.looked nearest, .loaded nearest]) := by
  show (if stands files nearest = true then _ else _ : StateM (List Inquiry) _).run _ = _
  rw [if_pos stands_]
  show (some _, (notes ++ [_]) ++ [_]) = _
  rw [List.append_assoc]
  rfl

/-- The search ends, at the nearest ancestor with a manifest if there is one, which it loads. It looks
into this ancestor, into all below it, and into no other, and loads no other. -/
theorem find_loads_nearest (files : Files) (directory : Text) :
    let start := Path.absolute files.workingPath directory
    ((ancestors start).head? = some start ∧ (ancestors start).getLast? = some [slash] ∧
      (ancestors start).IsChain fun below above => above = Path.directory below) ∧
    ((∃ below nearest above, ancestors start = below ++ nearest :: above ∧
        (∀ d ∈ below, files.contains (Path.join d fileName) = false) ∧
        files.contains (Path.join nearest fileName) = true ∧
        find files directory = (load files nearest).map some ∧
        inquiries files directory = (below ++ [nearest]).map .looked ++ [.loaded nearest]) ∨
      ((∀ d ∈ ancestors start, files.contains (Path.join d fileName) = false) ∧
        find files directory = .ok none ∧
        inquiries files directory = (ancestors start).map .looked)) := by
  have rooted : isAbsolute files.workingPath := rfl
  obtain ⟨kept, settled, start_eq⟩ := exists_absolute rooted directory
  simp only [find, inquiries, start_eq, search_eq_searchAlong _ _ settled]
  refine ⟨ancestors_chain settled, ?_⟩
  generalize ancestors (assemble true kept.reverse) = chain
  cases found : chain.find? (stands files) with
  | some nearest =>
      obtain ⟨stands_, below, above, rfl, empty⟩ := List.find?_eq_some_iff_append.mp found
      have empty : ∀ d ∈ below, stands files d = false := fun d member => by
        simpa using empty d member
      refine .inl ⟨below, nearest, above, rfl, empty, stands_, ?_, ?_⟩
      · rw [searchAlong_append empty, searchAlong_found stands_]
      · rw [run_searchAlong_append empty, run_searchAlong_found stands_]
        simp
  | none =>
      have empty : ∀ d ∈ chain, stands files d = false := fun d member => by
        simpa using List.find?_eq_none.mp found d member
      refine .inr ⟨empty, ?_, ?_⟩
      · rw [← List.append_nil chain, searchAlong_append empty]
        rfl
      · rw [← List.append_nil chain, run_searchAlong_append empty, List.append_nil]
        rfl

/-! A manifest two directories above the one that the search begins in, and one above that. -/

namespace Nested

def disk : Files where
  working := ["a"]
  entries := [([↑"a"], .directory), ([↑"a", ↑"b"], .directory), ([↑"a", ↑"b", ↑"c"], .directory),
    ([↑"datacode.toml"], .file "outer"), ([↑"a", ↑"datacode.toml"], .file "[project]\nname = 'inner'\n")]

end Nested

theorem find_loads_nearest_of_nested :
    (find Nested.disk "b/c").map (·.map (·.name)) = .ok (some "inner") ∧
      inquiries Nested.disk "b/c" =
        [.looked "/a/b/c", .looked "/a/b", .looked "/a", .loaded "/a"] := by
  have loaded : (load Nested.disk "/a").map (·.name) = .ok "inner" := by decide +kernel
  have chain : ancestors (Path.absolute Nested.disk.workingPath "b/c") =
      [↑"/a/b/c", ↑"/a/b", ↑"/a", ↑"/"] := by decide
  obtain ⟨-, ⟨below, nearest, above, split, empty, there, found, asked⟩ | ⟨empty, -⟩⟩ :=
    find_loads_nearest Nested.disk "b/c"
  · rw [chain] at split
    rcases below with _ | ⟨first, _ | ⟨second, _ | ⟨third, rest⟩⟩⟩
    · cases split
      exact absurd there (by decide)
    · cases split
      exact absurd there (by decide)
    · cases split
      refine ⟨?_, asked⟩
      rw [found]
      cases read : load Nested.disk "/a" with
      | error e =>
          rw [read] at loaded
          cases loaded
      | ok m =>
          rw [read] at loaded
          exact congrArg (Except.map some) loaded
    · simp only [List.cons_append, List.cons.injEq] at split
      obtain ⟨-, -, rfl, -⟩ := split
      exact absurd (empty _ (.tail _ (.tail _ (.head _)))) (by decide)
  · rw [chain] at empty
    exact absurd (empty "/a" (by decide)) (by decide)

end Manifest

end TableMachine
