import TableMachine.Export
import TableMachine.Proofs.Files
import TableMachine.Proofs.Paths

/-! # Which database an export adds to

An export removes what stands at its path, and the engine opens what the path names to it. `Extends` says what
database is found there and what becomes of it. Where the path names the file that was removed, none is found: a
walk through directories ends where cleaning the path says, so the location is the same. Where the path names
another file, as one with parameters does, the database in that file stays and the export adds to it.
-/

namespace TableMachine

namespace Path

variable {cs : List Text} {path : Text}

theorem kept_of_plain (plain : ∀ c ∈ cs, Plain c) : Kept true cs := by
  induction cs with
  | nil => exact .nil
  | cons c cs ih => exact .enters (plain c List.mem_cons_self) (ih fun d member => plain d (.tail _ member))

theorem components_assemble (between : ∀ c ∈ cs, IsComponent c) : components (assemble true cs) = cs := by
  rcases cs.eq_nil_or_concat with rfl | ⟨cs, c, rfl⟩
  · decide
  · rw [List.concat_eq_append] at between ⊢
    obtain ⟨between, last⟩ := List.forall_mem_append.mp between
    rw [assemble_concat, components_folder_append true between,
      components_of_isComponent (last c List.mem_cons_self)]

theorem cleanComponents_clean (path : Text) : cleanComponents (clean path) = cleanComponents path := by
  have assembled := (cleanComponents_assemble (kept_cleanComponents path)).2
  rwa [List.reverse_reverse] at assembled

end Path

namespace Files

variable {files files' : Files} {place place' next : List Text} {component path : Text}

/-- One step of a walk is one of cleaning. -/
theorem cleanStep_of_descend (plain : Path.up ∉ place) (went : files.descend place component = .ok next) :
    Path.cleanStep true place.reverse component = next.reverse ∧ Path.up ∉ next := by
  unfold descend at went
  unfold Path.cleanStep
  split at went
  · cases went
  · split at went
    · rename_i dot
      cases went
      exact ⟨if_pos dot, plain⟩
    · rename_i dot
      rw [if_neg dot]
      split at went
      · rename_i dots
        cases went
        rw [if_pos dots]
        rcases place.eq_nil_or_concat with rfl | ⟨above, last, rfl⟩
        · exact ⟨rfl, plain⟩
        · simp only [List.concat_eq_append, List.mem_append, List.mem_singleton, not_or] at plain
          simp [plain.1, Ne.symm plain.2]
      · rename_i dots
        split at went
        · cases went
        · cases went
          rw [if_neg dots]
          simp [plain, Ne.symm dots]
  · cases went

theorem foldl_cleanStep_of_foldlM {components : List Text} (plain : Path.up ∉ place)
    (went : components.foldlM files.descend place = .ok next) :
    components.foldl (Path.cleanStep true) place.reverse = next.reverse := by
  induction components generalizing place with
  | nil =>
      cases went
      rfl
  | cons component rest ih =>
      rw [List.foldlM_cons] at went
      obtain ⟨between, first, later⟩ := ok_of_bind went
      obtain ⟨step, plain⟩ := cleanStep_of_descend plain first
      rw [List.foldl_cons, step]
      exact ih plain later

theorem foldlM_of_resolve (resolved : files.resolve path = .ok place) :
    path ≠ [] ∧ (Path.components path).foldlM files.descend (if Path.isAbsolute path then [] else files.working) =
      .ok place := by
  unfold resolve at resolved
  split at resolved
  · cases resolved
  · rename_i given
    split at resolved
    · cases resolved
    · exact ⟨by simpa using given, resolved⟩

/-- A walk from the root ends where the cleaned path does. -/
theorem eq_cleanComponents (rooted : Path.isAbsolute path = true) (resolved : files.resolve path = .ok place) :
    place = Path.cleanComponents path := by
  have walked := (foldlM_of_resolve resolved).2
  rw [if_pos rooted] at walked
  rw [Path.cleanComponents, rooted, ← List.reverse_nil, foldl_cleanStep_of_foldlM List.not_mem_nil walked,
    List.reverse_reverse]

/-- A path and the path from the root that it stands for lead to one location, whatever changed in between. -/
theorem eq_of_resolve_absolute (working : ∀ c ∈ files.working, Path.Plain c)
    (resolved : files.resolve path = .ok place)
    (resolved' : files'.resolve (Path.absolute files.workingPath path) = .ok place') : place' = place := by
  obtain ⟨given, walked⟩ := foldlM_of_resolve resolved
  cases rooted : Path.isAbsolute path with
  | true =>
      rw [Path.absolute, if_pos rooted] at resolved'
      have clean_rooted : Path.isAbsolute (Path.clean path) = true := by
        rw [Path.clean, rooted]
        rfl
      rw [eq_cleanComponents clean_rooted resolved', Path.cleanComponents_clean,
        ← eq_cleanComponents rooted resolved]
  | false =>
      have joined : Path.absolute files.workingPath path =
          Path.clean (files.workingPath ++ Path.slash :: path) := by
        rw [Path.absolute, if_neg (by simp [rooted])]
        cases path with
        | nil => exact absurd rfl given
        | cons b rest => rfl
      have up_working : Path.up ∉ files.working := fun member => (working _ member).not_up rfl
      have settled : Path.Kept true files.working.reverse :=
        Path.kept_of_plain fun c member => working c (List.mem_reverse.mp member)
      have kept := settled.foldl_reverse
      rw [List.reverse_reverse] at kept
      rw [rooted, if_neg Bool.false_ne_true] at walked
      rw [joined] at resolved'
      -- Cleaning goes through the working directory first, and then on as the walk does.
      rw [eq_cleanComponents rfl resolved', Path.cleanComponents_clean, Path.cleanComponents,
        Path.components_append, workingPath, Path.components_assemble fun c member => (working c member).toIsComponent,
        List.foldl_append]
      show ((Path.components path).foldl (Path.cleanStep true) (files.working.foldl (Path.cleanStep true) [])).reverse = _
      rw [kept, foldl_cleanStep_of_foldlM up_working walked, List.reverse_reverse]

end Files

namespace Export

variable {engine : Engine} {heap : Heap} {stamp path : Text} {s : Snapshot} {db : Database}
  {files files' : Files} {location : List Text}

theorem ok_of_mapError {α ε ε' : Type} {f : ε → ε'} {x : Except ε α} {a : α} (ok : x.mapError f = .ok a) :
    x = .ok a := by
  cases x with
  | error e => cases ok
  | ok b =>
      cases ok
      rfl

/-! ## Clearing -/

/-- Either one location was emptied or nothing stood at the path. -/
theorem clear_ok (cleared : clear files path = .ok files') :
    (∃ location, files.resolve path = .ok location ∧ location ≠ [] ∧ files' = files.erase location) ∨
      files' = files ∧ files.Vacant path := by
  unfold clear at cleared
  split at cleared
  · rename_i removed
    cases cleared
    exact .inl (Files.remove_ok removed)
  · rename_i refused
    split at cleared
    · rename_i missing
      cases cleared
      exact .inr ⟨rfl, Files.vacant_of_missing refused missing⟩
    · cases cleared

theorem vacant_of_clear (cleared : clear files path = .ok files') : files'.Vacant path := by
  obtain ⟨location, resolved, inside, rfl⟩ | ⟨rfl, vacant⟩ := clear_ok cleared
  · exact Files.vacant_erase inside resolved
  · exact vacant

theorem at?_of_clear (cleared : clear files path = .ok files') (resolved : files.resolve path = .ok location) :
    files'.at? location = none := by
  obtain ⟨emptied, resolved', inside, rfl⟩ | ⟨rfl, vacant⟩ := clear_ok cleared
  · cases resolved.symm.trans resolved'
    rw [Files.at?_erase inside, if_pos rfl]
  · exact vacant location resolved

theorem working_of_clear (cleared : clear files path = .ok files') : files'.working = files.working := by
  obtain ⟨_, _, _, rfl⟩ | ⟨rfl, _⟩ := clear_ok cleared <;> rfl

/-! ## Opening -/

/-- The database that an export to a path finds. -/
def standing (engine : Engine) (files : Files) (path : Text) : Except ExportError Database := do
  let files ← clear files path
  let place ← place engine files path
  (place.held engine files).mapError (.catalogueRefused variableRows.name)

/-- A successful export found one database and left another. -/
structure Extends (engine : Engine) (files files' : Files) (path stamp : Text) (heap : Heap) (s : Snapshot)
    (before db : Database) : Prop where
  found : standing engine files path = .ok before
  added : database before heap stamp s = .ok db
  /-- The file that the path names to the engine, if it names one, holds the database. -/
  stored : ∀ name, engine.opens path = .ok (.file name) →
    load? engine files' (Path.absolute files'.workingPath name) = some db
  inMemory : engine.opens path = .ok .memory → before = .empty
  /-- A path that leads the engine where it leads, through directories that are there. -/
  inPlace : engine.opens path = .ok (.file path) → (files.resolve path).isOk →
    (∀ c ∈ files.working, Path.Plain c) → before = .empty

theorem place_ok {place : Place} (opened : Export.place engine files path = .ok place) :
    engine.opens path = .ok .memory ∧ place = .memory ∨
      ∃ name location, engine.opens path = .ok (.file name) ∧
        files.writable (Path.absolute files.workingPath name) = .ok location ∧ place = .file location := by
  unfold Export.place at opened
  split at opened
  · cases opened
  · rename_i memory
    cases opened
    exact .inl ⟨memory, rfl⟩
  · rename_i name file
    split at opened
    · cases opened
    · rename_i location writable
      cases opened
      exact .inr ⟨name, location, file, writable, rfl⟩

theorem load?_store (writable : files.writable path = .ok location) :
    load? engine ((Place.file location).store files db) path = some db := by
  rw [Place.store, load?, Files.stat_put writable]

/-- No database is found where the removed file stood. -/
theorem held_in_place {before : Database} (cleared : clear files path = .ok files')
    (writable : files'.writable (Path.absolute files'.workingPath path) = .ok location)
    (held : (Place.file location).held engine files' = .ok before) (resolves : (files.resolve path).isOk)
    (working : ∀ c ∈ files.working, Path.Plain c) : before = .empty := by
  cases resolved : files.resolve path with
  | error _ =>
      rw [resolved] at resolves
      cases resolves
  | ok place =>
      have same : files'.workingPath = files.workingPath := by
        rw [Files.workingPath, working_of_clear cleared]
        rfl
      rw [same] at writable
      have there := Files.eq_of_resolve_absolute working resolved (Files.writable_ok writable).1
      rw [Place.held, there, at?_of_clear cleared resolved] at held
      exact (Except.ok.inj (held.symm.trans engine.reads_nil))

theorem save_ok (saved : save engine files path stamp heap (some s) = (none, files')) :
    ∃ before db, Extends engine files files' path stamp heap s before db := by
  unfold save at saved
  simp only at saved
  split at saved
  · cases saved
  · rename_i between cleared
    split at saved
    · cases saved
    · rename_i place opened
      split at saved
      · cases saved
      · rename_i db extended
        cases saved
        obtain ⟨before, held, added⟩ := ok_of_bind extended
        have found : standing engine files path = .ok before := by
          rw [standing, cleared]
          show (Export.place engine between path >>= _) = _
          rw [opened]
          exact held
        have held := ok_of_mapError held
        obtain ⟨memory, rfl⟩ | ⟨name, location, file, writable, rfl⟩ := place_ok opened
        · refine ⟨before, db, found, added, ?_, fun _ => (Except.ok.inj held).symm, ?_⟩
          · exact fun _ file => nomatch memory.symm.trans file
          · exact fun file => nomatch memory.symm.trans file
        · refine ⟨before, db, found, added, ?_, fun memory => (nomatch file.symm.trans memory), ?_⟩
          · intro _ named
            cases file.symm.trans named
            exact load?_store writable
          · intro named
            cases file.symm.trans named
            exact held_in_place cleared writable held

end Export

end TableMachine
