import TableMachine.Proofs.Exporting

/-! # What a failed export leaves behind

An export removes what stands at its path before it opens a database there, and keeps no copy of it. So it leaves the
file at its path alone only if it fails before that: where there is no snapshot, or where the removal itself is
refused. After any other failure the path names nothing or an empty file, whatever stood there. All that stands
elsewhere stays, the database that the engine opened included.
-/

namespace TableMachine

/-- The export failed before anything was removed. -/
def ExportError.IsEarly : ExportError → Prop
  | .noSnapshot | .notRemoved _ _ => True
  | .notOpened _ | .catalogueRefused _ _ | .tableRefused _ _ | .indexRefused _ _ _ => False

namespace Export

variable {engine : Engine} {heap : Heap} {stamp path : Text} {s : Option Snapshot} {files files' : Files}
  {e : ExportError} {place : Place} {location : List Text}

/-! ## Failures of the database -/

/-- If it fails, then not early. -/
def Late {α : Type} (x : Except ExportError α) : Prop := ∀ e, x = .error e → ¬ e.IsEarly

namespace Late

variable {α β : Type}

theorem ok (a : α) : Late (.ok a) := nofun

theorem bind {x : Except ExportError α} {f : α → Except ExportError β} (first : Late x) (rest : ∀ a, Late (f a)) :
    Late (x >>= f) := by
  cases x with
  | error e =>
      rintro _ ⟨⟩
      exact first e rfl
  | ok a => exact rest a

theorem foldlM {f : β → α → Except ExportError β} (each : ∀ b a, Late (f b a)) (items : List α) (b : β) :
    Late (items.foldlM f b) := by
  induction items generalizing b with
  | nil => exact ok b
  | cons a rest ih => exact (each b a).bind ih

end Late

theorem late_mapError {α : Type} {f : Refusal → ExportError} (late : ∀ refusal, ¬ (f refusal).IsEarly)
    (x : Except Refusal α) : Late (x.mapError f) := by
  cases x with
  | error refusal =>
      rintro _ ⟨⟩
      exact late refusal
  | ok a => exact .ok a

theorem late_addTable (heap : Heap) (db : Database) (named : Text × Table) : Late (addTable heap db named) := by
  unfold addTable
  simp only
  split
  · exact .ok _
  · exact (late_mapError (fun _ => id) _).bind fun _ => .ok _

theorem late_addIndex (exported : List (Text × Table)) (db : Database) (table column : Text) :
    Late (addIndex exported db table column) := by
  unfold addIndex
  split
  · exact .ok _
  · split
    · exact .ok _
    · exact late_mapError (fun _ => id) _

theorem late_database (db : Database) (heap : Heap) (stamp : Text) (s : Snapshot) :
    Late (database db heap stamp s) := by
  have catalogue (db : Database) (c : Catalogue) : Late (addCatalogue db c) := late_mapError (fun _ => id) _
  refine (catalogue _ _).bind fun _ => (Late.foldlM (late_addTable heap) _ _).bind fun _ =>
    (catalogue _ _).bind fun _ => (Late.foldlM (fun db r => ?_) _ _).bind fun _ =>
    (catalogue _ _).bind fun _ => .ok _
  exact (late_addIndex _ _ _ _).bind fun _ => late_addIndex _ _ _ _

theorem late_extended (place : Place) (heap : Heap) (stamp : Text) (s : Snapshot) :
    Late (extended engine files place heap stamp s) :=
  (late_mapError (fun _ => id) _).bind fun db => late_database db heap stamp s

theorem late_place : Late (Export.place engine files path) := by
  unfold Export.place
  split
  · rintro _ ⟨⟩
    exact id
  · exact .ok _
  · split
    · rintro _ ⟨⟩
      exact id
    · exact .ok _

/-! ## The files -/

theorem isEarly_of_clear (refused : clear files path = .error e) : e.IsEarly := by
  unfold clear at refused
  split at refused
  · cases refused
  · split at refused
    · cases refused
    · cases refused
      trivial

/-- What stands at a location now is what stood there, unless it stood at the path or nothing did, and a file that is
new is empty. -/
def Keeps (files : Files) (path : Text) (files' : Files) : Prop :=
  ∀ location, files'.at? location = files.at? location ∨
    (files.resolve path = .ok location ∨ files.at? location = none) ∧
      (files'.at? location = none ∨ files'.at? location = some (.file []))

theorem keeps_of_clear (cleared : clear files path = .ok files') : Keeps files path files' := by
  intro location
  obtain ⟨emptied, resolved, inside, rfl⟩ | ⟨rfl, -⟩ := clear_ok cleared
  · rw [Files.at?_erase inside]
    by_cases there : location = emptied
    · rw [there, if_pos rfl]
      exact .inr ⟨.inl resolved, .inl rfl⟩
    · exact .inl (if_neg there)
  · exact .inl rfl

/-- Opening changes nothing but that there is a file. -/
theorem opened_cases (files : Files) (place : Place) : place.opened files = files ∨
    ∃ location, location ≠ [] ∧ files.at? location = none ∧ place.opened files = files.put location (.file []) := by
  cases place with
  | memory => exact .inl rfl
  | file location =>
      cases standing : files.at? location with
      | some entry =>
          left
          rw [Place.opened, standing]
          rfl
      | none =>
          refine .inr ⟨location, Files.ne_nil_of_at? (by rw [standing]; simp), standing, ?_⟩
          rw [Place.opened, standing]
          rfl

theorem Keeps.opened (keeps : Keeps files path files') (place : Place) : Keeps files path (place.opened files') := by
  obtain same | ⟨new, inside, free, put⟩ := opened_cases files' place
  · rwa [same]
  · intro location
    rw [put, Files.at?_put inside]
    by_cases there : location = new
    · subst there
      rw [if_pos rfl]
      refine .inr ⟨?_, .inr rfl⟩
      rcases keeps location with same | changed
      · exact .inr (same.symm.trans free)
      · exact changed.1
    · rw [if_neg there]
      exact keeps location

theorem stat_opened {entry : Entry} (vacant : files.Vacant path)
    (found : (place.opened files).stat path = .ok entry) : entry = .file [] := by
  obtain same | ⟨location, inside, -, put⟩ := opened_cases files place
  · rw [same] at found
    exact absurd found vacant.stat
  · rw [put] at found
    exact vacant.stat_put inside (by simp) found

namespace Overwritten

def disk : Files := ⟨[], [([↑"out.db"], .file "kept")]⟩

def store : Heap where
  tables := #[⟨"twice", ["a", "a"], [], ["a", "a"]⟩]

def snapshot : Snapshot where
  globals := [⟨0, "twice", true, .table ⟨0⟩⟩]
  relations := []
  primaryKeys := []

def saved : Option ExportError × Files := save .standard disk "out.db" "now" store (some snapshot)

def aside : Option ExportError × Files := save .standard disk "out.db?x" "now" store (some snapshot)

end Overwritten

end Export

end TableMachine
