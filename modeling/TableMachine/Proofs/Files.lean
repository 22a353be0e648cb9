import TableMachine.Files
import TableMachine.Proofs.Memos
import TableMachine.Proofs.References

/-! # What stands at a path after a file was put there or taken away

A path is resolved through directories only. So every path that can be resolved leads to the same location where
there are more directories. A file is put where no directory stands: the paths that could be resolved before lead
where they did, and the path of the file to the file. Neither a new file nor a removal makes a directory: the paths
that can be resolved afterwards lead where they did.
-/

namespace TableMachine.Files

variable {files files' : Files} {location place next : List Text} {entry : Entry} {path component : Text}

theorem at?_put (inside : location ≠ []) :
    (files.put location entry).at? place = if place = location then some entry else files.at? place := by
  unfold at? put
  by_cases same : place = location
  · subst same
    have gone : (files.entries.filter (·.1 ≠ place)).lookup place = none := by
      rw [List.lookup_eq_none_iff]
      intro found member
      exact bne_iff_ne.mpr (Ne.symm (of_decide_eq_true (List.mem_filter.mp member).2))
    rw [if_pos rfl, if_neg (by simpa using inside), List.lookup_append, gone, Option.none_or,
      List.lookup_cons_self]
  · have last : [(location, entry)].lookup place = none := by
      rw [List.lookup_eq_none_iff, List.forall_mem_singleton]
      exact bne_iff_ne.mpr same
    rw [if_neg same, List.lookup_append, lookup_filter_ne same, last, Option.or_none]

theorem ne_nil_of_at? (free : files.at? location ≠ some .directory) : location ≠ [] := by
  rintro rfl
  exact free rfl

theorem at?_erase (inside : location ≠ []) :
    (files.erase location).at? place = if place = location then none else files.at? place := by
  unfold at? erase
  by_cases same : place = location
  · subst same
    rw [if_pos rfl, if_neg (by simpa using inside), List.lookup_eq_none_iff]
    intro found member
    exact bne_iff_ne.mpr (Ne.symm (of_decide_eq_true (List.mem_filter.mp member).2))
  · rw [if_neg same, lookup_filter_ne same]

/-! ## Ways -/

/-- All directories of the first file system are directories of the second, and their working directory is one. -/
structure Within (files files' : Files) : Prop where
  working : files.working = files'.working
  directories : ∀ place, files.at? place = some .directory → files'.at? place = some .directory

namespace Within

/-- A file takes the place of no directory. -/
theorem put (free : files.at? location ≠ some .directory) : files.Within (files.put location entry) where
  working := rfl
  directories := by
    intro place standing
    have other : place ≠ location := by
      rintro rfl
      exact free standing
    rw [at?_put (ne_nil_of_at? free), if_neg other]
    exact standing

/-- A file is no directory. -/
theorem of_put (inside : location ≠ []) (file : entry ≠ .directory) : (files.put location entry).Within files where
  working := rfl
  directories := by
    intro place standing
    rw [at?_put inside] at standing
    split at standing
    · cases standing
      contradiction
    · exact standing

theorem of_erase (inside : location ≠ []) : (files.erase location).Within files where
  working := rfl
  directories := by
    intro place standing
    rw [at?_erase inside] at standing
    split at standing
    · cases standing
    · exact standing

theorem descend (within : files.Within files') (went : files.descend place component = .ok next) :
    files'.descend place component = .ok next := by
  unfold Files.descend at went ⊢
  split at went
  · cases went
  · rename_i standing
    rw [within.directories place standing]
    exact went
  · cases went

theorem foldlM_descend {components start : List Text} (within : files.Within files')
    (went : components.foldlM files.descend start = .ok place) :
    components.foldlM files'.descend start = .ok place := by
  induction components generalizing start with
  | nil => exact went
  | cons component rest ih =>
      rw [List.foldlM_cons] at went ⊢
      obtain ⟨next, first, later⟩ := ok_of_bind went
      rw [within.descend first]
      exact ih later

/-- A path leads where it did, since every way goes through directories only. -/
theorem resolve (within : files.Within files') (found : files.resolve path = .ok place) :
    files'.resolve path = .ok place := by
  unfold Files.resolve at found ⊢
  split at found
  · cases found
  · rename_i given
    split at found
    · cases found
    · rename_i valid
      rw [if_neg given, if_neg valid, ← within.working]
      exact within.foldlM_descend found

end Within

theorem writable_ok (writable : files.writable path = .ok location) :
    files.resolve path = .ok location ∧ files.at? location ≠ some .directory ∧
      asksDirectory path = false := by
  obtain ⟨found, resolved, checked⟩ := ok_of_bind writable
  cases standing : files.at? found with
  | none =>
      rw [standing] at checked
      simp only at checked
      split at checked
      · cases checked
      · rename_i asked
        have same : found = location := by
          split at checked
          · cases checked
            rfl
          · cases checked
          · cases checked
        subst same
        exact ⟨resolved, by rw [standing]; exact nofun, Bool.eq_false_iff.mpr asked⟩
  | some entry =>
      rw [standing] at checked
      cases entry with
      | directory => cases checked
      | _ =>
          simp only at checked
          split at checked
          · cases checked
          · rename_i asked
            cases checked
            exact ⟨resolved, by rw [standing]; exact nofun, Bool.eq_false_iff.mpr asked⟩

/-- A database stands where it was put. -/
theorem stat_put {db : Database} (writable : files.writable path = .ok location) :
    (files.put location (.database db)).stat path = .ok (.database db) := by
  obtain ⟨resolved, free, asked⟩ := writable_ok writable
  have standing : (files.put location (.database db)).at? location = some (.database db) := by
    rw [at?_put (ne_nil_of_at? free), if_pos rfl]
  simp only [stat, bind, Except.bind, (Within.put free).resolve resolved, standing, asked]
  rfl

/-! ## Vacant paths -/

/-- Nothing stands at the location that the path names, if it names one. -/
def Vacant (files : Files) (path : Text) : Prop := ∀ place, files.resolve path = .ok place → files.at? place = none

theorem stat_ok (found : files.stat path = .ok entry) :
    ∃ place, files.resolve path = .ok place ∧ files.at? place = some entry := by
  obtain ⟨place, resolved, checked⟩ := ok_of_bind found
  refine ⟨place, resolved, ?_⟩
  cases standing : files.at? place with
  | none =>
      rw [standing] at checked
      cases checked
  | some there =>
      rw [standing] at checked
      cases there with
      | directory =>
          cases checked
          rfl
      | _ =>
          simp only at checked
          split at checked
          · cases checked
          · cases checked
            rfl

theorem Vacant.stat (vacant : files.Vacant path) : files.stat path ≠ .ok entry := by
  intro found
  obtain ⟨place, resolved, standing⟩ := stat_ok found
  cases standing.symm.trans (vacant place resolved)

/-- What stands at a path where nothing stood is what was put somewhere. -/
theorem Vacant.stat_put (vacant : files.Vacant path) (inside : location ≠ []) (file : entry ≠ .directory)
    {there : Entry} (found : (files.put location entry).stat path = .ok there) : there = entry := by
  obtain ⟨place, resolved, standing⟩ := stat_ok found
  rw [at?_put inside] at standing
  split at standing
  · exact (Option.some.inj standing).symm
  · cases standing.symm.trans (vacant place ((Within.of_put inside file).resolve resolved))

theorem vacant_erase (inside : location ≠ []) (resolved : files.resolve path = .ok location) :
    (files.erase location).Vacant path := by
  intro place found
  cases resolved.symm.trans ((Within.of_erase inside).resolve found)
  rw [at?_erase inside, if_pos rfl]

/-- A removal empties the location of the path, which is not the root. -/
theorem remove_ok (removed : files.remove path = .ok files') :
    ∃ location, files.resolve path = .ok location ∧ location ≠ [] ∧ files' = files.erase location := by
  unfold remove at removed
  simp only at removed
  split at removed
  · cases removed
  · rename_i location resolved
    split at removed
    · cases removed
    · split at removed
      · cases removed
      · split at removed
        · cases removed
        · rename_i inside
          split at removed
          · cases removed
          · cases removed
            exact ⟨location, resolved, fun root => inside (by rw [root]; rfl), rfl⟩
    · rename_i entry free standing
      split at removed
      · cases removed
      · cases removed
        have inside := ne_nil_of_at? fun there => free (Option.some.inj (standing.symm.trans there))
        exact ⟨location, resolved, inside, rfl⟩

/-- A removal is refused for want of something to remove only where nothing stands. -/
theorem vacant_of_missing {failure : FileFailure} (refused : files.remove path = .error failure)
    (missing : failure.reason = .missing) : files.Vacant path := by
  intro place resolved
  unfold remove at refused
  rw [resolved] at refused
  simp only at refused
  split at refused
  · assumption
  · split at refused
    · cases refused
      cases missing
    · split at refused
      · cases refused
        cases missing
      · split at refused
        · cases refused
          cases missing
        · cases refused
  · split at refused
    · cases refused
      cases missing
    · cases refused

end TableMachine.Files
