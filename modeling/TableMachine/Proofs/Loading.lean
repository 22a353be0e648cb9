import TableMachine.Proofs.Framing
import TableMachine.Wire.Artifact

/-! # What a loaded program is known to have

A program that was loaded lacks no function and no chunk, and none of its functions captures more than
an array of the stored form can list. The bound comes from the reader, which refuses longer arrays at
every depth, and reaches the captures through the fields that the decoder looks at.
-/

namespace TableMachine

namespace Wire

variable {item : Item} {limit : Nat}

theorem untag?_sized {inner : Item} (done : untag? item = some inner) (sized : item.Sized limit) :
    inner.Sized limit := by
  fun_induction untag? item with
  | case1 => cases done
  | case2 =>
      cases done
      exact sized
  | case3 number content _ _ ih =>
      cases sized with
      | tag _ inner => exact ih done inner
  | case4 =>
      cases done
      exact sized

theorem orNull?_eq_some {α : Type} {absent x : α} {f : Item → Option α}
    (done : orNull? absent f item = some x) :
    x = absent ∨ ∃ inner, untag? item = some inner ∧ f inner = some x := by
  obtain ⟨inner, untagged, done⟩ := Option.bind_eq_some_iff.mp done
  split at done
  · cases done
    exact .inl rfl
  · exact .inr ⟨inner, untagged, done⟩

theorem orNull?_cases {α : Type} {absent x : α} {f : Item → Option α}
    (done : orNull? absent f item = some x) (sized : item.Sized limit) :
    x = absent ∨ ∃ inner : Item, inner.Sized limit ∧ f inner = some x :=
  (orNull?_eq_some done).imp_right fun ⟨inner, untagged, done⟩ =>
    ⟨inner, untag?_sized untagged sized, done⟩

/-- What is collected from a list is made of its members, each of which gives something. -/
theorem exists_of_mapM {α : Type} {β : Type} {f : α → Option β} {xs : List α} {ys : List β}
    (done : xs.mapM f = some ys) :
    ys.length = xs.length ∧ (∀ x ∈ xs, ∃ y, f x = some y) ∧ ∀ y ∈ ys, ∃ x ∈ xs, f x = some y := by
  induction xs generalizing ys with
  | nil =>
      cases done
      exact ⟨rfl, by simp, by simp⟩
  | cons x xs ih =>
      rw [List.mapM_cons] at done
      obtain ⟨y, found, done⟩ := Option.bind_eq_some_iff.mp done
      obtain ⟨ys', rest, done⟩ := Option.bind_eq_some_iff.mp done
      cases done
      obtain ⟨length, given, each⟩ := ih rest
      refine ⟨congrArg Nat.succ length, List.forall_mem_cons.mpr ⟨⟨y, found⟩, given⟩,
        List.forall_mem_cons.mpr ⟨⟨x, List.mem_cons_self, found⟩, ?_⟩⟩
      intro z member
      obtain ⟨w, stored, made⟩ := each z member
      exact ⟨w, List.mem_cons_of_mem _ stored, made⟩

theorem fields?_sized {fields : List (Option Nat × Item)} (done : fields? item = some fields)
    (sized : item.Sized limit) : ∀ field ∈ fields, field.2.Sized limit := by
  rcases orNull?_cases done sized with rfl | ⟨inner, sized, done⟩
  · intro field member
    cases member
  · split at done
    · cases sized with
      | map _ _ values =>
          intro field member
          obtain ⟨entry, stored, made⟩ := (exists_of_mapM done).2.2 field member
          obtain ⟨number, _, made⟩ := Option.bind_eq_some_iff.mp made
          cases made
          exact values entry stored
    · cases done

theorem field?_sized {α : Type} {fields : List (Option Nat × Item)} {number : Nat}
    {f : Item → Option α} {x : α} (done : field? fields number f = some x)
    (sized : ∀ field ∈ fields, field.2.Sized limit) :
    ∃ inner : Item, inner.Sized limit ∧ f inner = some x := by
  unfold field? at done
  cases found : fields.lookup (some number) with
  | none =>
      rw [found] at done
      exact ⟨.null, .simple _, done⟩
  | some inner =>
      rw [found] at done
      obtain ⟨before, after, split, _⟩ := List.lookup_eq_some_iff.mp found
      exact ⟨inner, sized (some number, inner) (by rw [split]; simp), done⟩

theorem section?_sized {α : Type} {f : Item → Option α} {entries : Section α}
    (done : section? f item = some entries) (sized : item.Sized limit) :
    entries.entries.size ≤ maxEntries ∧
      ∀ x ∈ entries.entries, ∃ inner : Item, inner.Sized limit ∧ f inner = some x := by
  rcases orNull?_cases done sized with rfl | ⟨inner, sized, done⟩
  · exact ⟨Nat.zero_le _, by simp [Section.entries]⟩
  · split at done
    · obtain ⟨xs, made, rfl⟩ := Option.map_eq_some_iff.mp done
      obtain ⟨length, _, each⟩ := exists_of_mapM made
      cases sized with
      | array few inner =>
          refine ⟨?_, fun x member => ?_⟩
          · show xs.toArray.size ≤ _
            rw [List.size_toArray, length]
            exact few
          · obtain ⟨entry, stored, made⟩ := each x (List.mem_toArray.mp member)
            exact ⟨entry, inner entry stored, made⟩
    · cases done

theorem function?_captures {f : Function} (done : function? item = some f) (sized : item.Sized limit) :
    f.captures.size ≤ maxEntries := by
  obtain ⟨fields, read, done⟩ := Option.bind_eq_some_iff.mp done
  obtain ⟨_, _, done⟩ := Option.bind_eq_some_iff.mp done
  obtain ⟨_, _, done⟩ := Option.bind_eq_some_iff.mp done
  obtain ⟨_, _, done⟩ := Option.bind_eq_some_iff.mp done
  obtain ⟨captures, listed, done⟩ := Option.bind_eq_some_iff.mp done
  obtain ⟨_, _, done⟩ := Option.bind_eq_some_iff.mp done
  obtain ⟨_, _, done⟩ := Option.bind_eq_some_iff.mp done
  cases done
  obtain ⟨inner, sized, listed⟩ := field?_sized listed (fields?_sized read sized)
  exact (section?_sized listed sized).1

theorem program?_captures {p : Program} (done : program? item = some p) (sized : item.Sized limit)
    {f : Function} (member : some f ∈ p.functions) : f.captures.size ≤ maxEntries := by
  obtain ⟨fields, read, done⟩ := Option.bind_eq_some_iff.mp done
  obtain ⟨_, _, done⟩ := Option.bind_eq_some_iff.mp done
  obtain ⟨functions, listed, done⟩ := Option.bind_eq_some_iff.mp done
  cases done
  obtain ⟨inner, sized, listed⟩ := field?_sized listed (fields?_sized read sized)
  obtain ⟨entry, sized, made⟩ := (section?_sized listed sized).2 _ member
  unfold option? at made
  split at made
  · cases made
  · obtain ⟨g, made, same⟩ := Option.map_eq_some_iff.mp made
    cases same
    exact function?_captures made sized

end Wire

/-! ## Loading -/

namespace Artifact

/-- A function of the completed list is one of those given, with its chunk completed. -/
theorem mem_completeFunctions {position : Nat} {given functions : List (Option Function)}
    (done : completeFunctions position given = .ok functions) {entry : Option Function}
    (member : entry ∈ functions) : ∃ f chunk, some f ∈ given ∧ f.chunk = some chunk ∧
      entry = some { f with chunk := some (withNames chunk) } := by
  induction given generalizing position functions with
  | nil =>
      cases done
      cases member
  | cons first rest ih =>
      unfold completeFunctions at done
      split at done
      · cases done
      · rename_i f completed
        cases others : completeFunctions (position + 1) rest with
        | error e =>
            rw [others] at done
            cases done
        | ok others_ =>
            rw [others] at done
            cases done
            rcases List.mem_cons.mp member with rfl | later
            · obtain ⟨g, rfl, completed⟩ := Option.bind_eq_some_iff.mp completed
              obtain ⟨chunk, present, completed⟩ := Option.bind_eq_some_iff.mp completed
              cases completed
              exact ⟨g, chunk, List.mem_cons_self, present, rfl⟩
            · obtain ⟨g, chunk, listed, present, same⟩ := ih others later
              exact ⟨g, chunk, List.mem_cons_of_mem _ listed, present, same⟩

theorem length_completeFunctions {position : Nat} {given functions : List (Option Function)}
    (done : completeFunctions position given = .ok functions) : functions.length = given.length := by
  induction given generalizing position functions with
  | nil =>
      cases done
      rfl
  | cons first rest ih =>
      unfold completeFunctions at done
      split at done
      · cases done
      · cases others : completeFunctions (position + 1) rest with
        | error e =>
            rw [others] at done
            cases done
        | ok others_ =>
            rw [others] at done
            cases done
            exact congrArg Nat.succ (ih others)

/-- A loaded program was read, decoded and completed. -/
theorem load_ok {data : Text} {p : Program} (loaded : load data = .ok p) :
    ∃ item stored, Wire.read? (data.drop 6) = some item ∧ Wire.program? item = some stored ∧
      complete stored = .ok p := by
  unfold load at loaded
  split at loaded
  · cases loaded
  · split at loaded
    · cases loaded
    · simp only at loaded
      split at loaded
      · cases loaded
      · split at loaded
        · cases loaded
        · rename_i stored decoded
          obtain ⟨item, read, decoded⟩ := Option.bind_eq_some_iff.mp decoded
          exact ⟨item, stored, read, decoded, loaded⟩

theorem complete_ok {stored p : Program} (completed : complete stored = .ok p) :
    ∃ main functions, stored.main = some main ∧
      completeFunctions 0 stored.functions.toList = .ok functions ∧
      p = ⟨some (withNames main), functions.toArray⟩ := by
  unfold complete at completed
  split at completed
  · cases completed
  · rename_i main present
    cases functions : completeFunctions 0 stored.functions.toList with
    | error e =>
        rw [functions] at completed
        cases completed
    | ok functions_ =>
        rw [functions] at completed
        cases completed
        exact ⟨main, functions_, present, rfl, rfl⟩

/-- No function of a loaded program is missing or without a chunk, and its captures are few. -/
theorem load_functions {data : Text} {p : Program} (loaded : load data = .ok p) {entry : Option Function}
    (member : entry ∈ p.functions) : ∃ f chunk, entry = some f ∧ f.chunk = some chunk ∧
      f.captures.size ≤ Wire.maxEntries := by
  obtain ⟨item, stored, read, decoded, completed⟩ := load_ok loaded
  obtain ⟨main, functions, _, made, rfl⟩ := complete_ok completed
  obtain ⟨f, chunk, listed, _, rfl⟩ := mem_completeFunctions made (List.mem_toArray.mp member)
  have few := Wire.program?_captures decoded (Wire.read?_framed read).2 (Array.mem_toList_iff.mp listed)
  exact ⟨_, _, rfl, rfl, few⟩

end Artifact

end TableMachine
