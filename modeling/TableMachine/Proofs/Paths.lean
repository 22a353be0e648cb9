import TableMachine.Operation.Arithmetic
import TableMachine.Operation.Element
import TableMachine.Path.Ascent

/-! # Cleaned paths

Cleaning keeps a stack of components: plain ones, and in a path that does not start at the root double
dots below them. `Kept` says so, and cleaning a path that is assembled from such components keeps all of
them. The last one stands behind the others, each with its slash, so that it is read off as the name of
the path, and cleaning what stands before it gives the directory. A path extended by a plain name
therefore has that name, and the cleaned path for its parent.
-/

namespace TableMachine

namespace Path

open Text

variable {rooted : Bool} {kept cs : List Text} {c t path : Text}

/-! ## Components -/

/-- A text that can stand between slashes. -/
structure IsComponent (c : Text) : Prop where
  nonempty : c ≠ []
  bare : slash ∉ c

/-- A component that names an entry of the directory it stands in. -/
structure Plain (c : Text) : Prop extends IsComponent c where
  not_here : c ≠ here
  not_up : c ≠ up

theorem isComponent_of_mem_components (member : c ∈ components path) : IsComponent c := by
  obtain ⟨piece, nonempty⟩ := List.mem_filter.mp member
  exact ⟨by simpa using nonempty, not_mem_of_mem_splitOn piece⟩

theorem components_of_isComponent (component : IsComponent c) : components c = [c] := by
  unfold components
  rw [splitOn_of_not_mem component.bare, List.filter_cons, if_pos (by simpa using component.nonempty)]
  rfl

theorem isAbsolute_of_not_mem (bare : slash ∉ t) : isAbsolute t = false := by
  cases t with
  | nil => rfl
  | cons b rest =>
      rw [List.mem_cons, not_or] at bare
      exact beq_false_of_ne (Ne.symm bare.1)

theorem isAbsolute_append (nonempty : c ≠ []) (t : Text) : isAbsolute (c ++ t) = isAbsolute c := by
  cases c with
  | nil => exact absurd rfl nonempty
  | cons b rest => rfl

/-! ## What cleaning keeps -/

/-- The stacks that cleaning builds, the last component first. -/
inductive Kept (rooted : Bool) : List Text → Prop
  | nil : Kept rooted []
  | enters {c rest} (plain : Plain c) (below : Kept rooted rest) : Kept rooted (c :: rest)
  /-- Above a double dot that stays there are only others, and never the root. -/
  | leaves {rest} (relative : rooted = false) (above : ∀ c ∈ rest, c = up) (below : Kept rooted rest) :
      Kept rooted (up :: rest)

namespace Kept

theorem isComponent (settled : Kept rooted kept) : ∀ c ∈ kept, IsComponent c := by
  induction settled with
  | nil => exact fun _ member => absurd member List.not_mem_nil
  | enters plain _ ih => exact List.forall_mem_cons.mpr ⟨plain.toIsComponent, ih⟩
  | leaves _ _ _ ih => exact List.forall_mem_cons.mpr ⟨⟨by decide, by decide⟩, ih⟩

theorem tail (settled : Kept rooted (c :: kept)) : Kept rooted kept := by
  cases settled with
  | enters _ below => exact below
  | leaves _ _ below => exact below

theorem cleanStep (settled : Kept rooted kept) (component : IsComponent c) :
    Kept rooted (cleanStep rooted kept c) := by
  unfold Path.cleanStep
  by_cases dot : c = here
  · rwa [if_pos dot]
  · rw [if_neg dot]
    by_cases dots : c = up
    · rw [if_pos dots]
      -- Only a plain component is taken back; the root and double dots are not.
      cases settled with
      | nil =>
          cases rooted with
          | true => exact .nil
          | false => exact .leaves rfl (fun _ member => absurd member List.not_mem_nil) .nil
      | enters plain below =>
          show Kept rooted (if _ then _ else _)
          rwa [if_neg plain.not_up]
      | leaves relative above below =>
          show Kept rooted (if _ then _ else _)
          rw [if_pos rfl]
          exact .leaves relative (List.forall_mem_cons.mpr ⟨rfl, above⟩) (.leaves relative above below)
    · rw [if_neg dots]
      exact .enters ⟨component, dot, dots⟩ settled

/-- Cleaning what was kept keeps all of it. -/
theorem foldl_reverse (settled : Kept rooted kept) :
    kept.reverse.foldl (Path.cleanStep rooted) [] = kept := by
  induction settled with
  | nil => rfl
  | enters plain _ ih =>
      rw [List.reverse_cons, List.foldl_append, ih, List.foldl_cons, List.foldl_nil]
      unfold Path.cleanStep
      rw [if_neg plain.not_here, if_neg plain.not_up]
  | @leaves rest relative above _ ih =>
      rw [List.reverse_cons, List.foldl_append, ih, List.foldl_cons, List.foldl_nil]
      unfold Path.cleanStep
      rw [if_neg (by decide), if_pos rfl]
      cases rest with
      | nil => simp [relative]
      | cons last rest => simp [above last]

end Kept

theorem kept_foldl (settled : Kept rooted kept) (components : ∀ c ∈ cs, IsComponent c) :
    Kept rooted (cs.foldl (cleanStep rooted) kept) := by
  induction cs generalizing kept with
  | nil => exact settled
  | cons c cs ih =>
      obtain ⟨component, components⟩ := List.forall_mem_cons.mp components
      exact ih (settled.cleanStep component) components

theorem kept_cleanComponents (path : Text) : Kept (isAbsolute path) (cleanComponents path).reverse := by
  rw [cleanComponents, List.reverse_reverse]
  exact kept_foldl .nil fun _ => isComponent_of_mem_components

/-! ## Assembled paths -/

/-- The components with a slash behind each. -/
def folder (rooted : Bool) (cs : List Text) : Text :=
  (if rooted then [slash] else []) ++ cs.flatMap (· ++ [slash])

theorem assemble_concat (rooted : Bool) (cs : List Text) (c : Text) :
    assemble rooted (cs ++ [c]) = folder rooted cs ++ c := by
  have joined : joinWith [slash] (cs ++ [c]) = cs.flatMap (· ++ [slash]) ++ c := by
    unfold joinWith
    induction cs with
    | nil => exact List.intercalate_singleton
    | cons d ds ih =>
        rw [List.cons_append, List.intercalate_cons_of_ne_nil (by simp), ih, List.flatMap_cons,
          List.append_assoc _ _ c]
  unfold assemble folder
  rw [joined]
  cases rooted <;> simp

theorem components_folder_append (rooted : Bool) (between : ∀ c ∈ cs, IsComponent c) (t : Text) :
    components (folder rooted cs ++ t) = cs ++ components t := by
  have unrooted : components (cs.flatMap (· ++ [slash]) ++ t) = cs ++ components t := by
    induction cs with
    | nil => rfl
    | cons c cs ih =>
        obtain ⟨component, between⟩ := List.forall_mem_cons.mp between
        rw [List.flatMap_cons, List.append_assoc, List.append_assoc, List.singleton_append,
          components_append, components_of_isComponent component, ih between, List.cons_append,
          List.nil_append, List.cons_append]
  cases rooted with
  | true => exact (components_append [] _).trans unrooted
  | false => exact unrooted

theorem isAbsolute_folder_append (rooted : Bool) (between : ∀ c ∈ cs, IsComponent c)
    (bare : slash ∉ t) :
    isAbsolute (folder rooted cs ++ t) = rooted := by
  cases rooted with
  | true => rfl
  | false =>
      cases cs with
      | nil => exact isAbsolute_of_not_mem bare
      | cons c cs =>
          obtain ⟨nonempty, bare⟩ := between c List.mem_cons_self
          show isAbsolute ((c ++ [slash] ++ cs.flatMap (· ++ [slash])) ++ t) = false
          rw [List.append_assoc, List.append_assoc, isAbsolute_append nonempty, isAbsolute_of_not_mem bare]

/-- A folder without components is empty, unless it is the root; any other text of this form ends in
a slash. -/
theorem folder_cases (rooted : Bool) (cs : List Text) :
    (rooted = false ∧ cs = [] ∧ folder rooted cs = []) ∨
      ∃ before, folder rooted cs = before ++ [slash] := by
  rcases cs.eq_nil_or_concat with rfl | ⟨cs, c, rfl⟩
  · cases rooted with
    | true => exact .inr ⟨[], rfl⟩
    | false => exact .inl ⟨rfl, rfl, rfl⟩
  · refine .inr ⟨folder rooted cs ++ c, ?_⟩
    simp [folder]

theorem cleanComponents_folder (settled : Kept rooted kept) :
    isAbsolute (folder rooted kept.reverse) = rooted ∧
      cleanComponents (folder rooted kept.reverse) = kept.reverse := by
  have between : ∀ c ∈ kept.reverse, IsComponent c := fun c member =>
    settled.isComponent c (List.mem_reverse.mp member)
  have absolute := isAbsolute_folder_append rooted between (t := []) List.not_mem_nil
  have parts := components_folder_append rooted between []
  rw [List.append_nil] at absolute parts
  refine ⟨absolute, ?_⟩
  rw [cleanComponents, absolute, parts, components_nil, List.append_nil, settled.foldl_reverse]

theorem cleanComponents_assemble (settled : Kept rooted kept) :
    isAbsolute (assemble rooted kept.reverse) = rooted ∧
      cleanComponents (assemble rooted kept.reverse) = kept.reverse := by
  cases kept with
  | nil => cases rooted <;> exact ⟨rfl, by decide⟩
  | cons c rest =>
      have component := settled.isComponent c List.mem_cons_self
      have between : ∀ c ∈ rest.reverse, IsComponent c := fun c member =>
        settled.tail.isComponent c (List.mem_reverse.mp member)
      have absolute := isAbsolute_folder_append rooted between component.bare
      have parts := components_folder_append rooted between c
      rw [components_of_isComponent component, ← List.reverse_cons] at parts
      rw [List.reverse_cons, assemble_concat]
      refine ⟨absolute, ?_⟩
      rw [cleanComponents, absolute, parts, settled.foldl_reverse, List.reverse_cons]

theorem clean_folder (settled : Kept rooted kept) :
    clean (folder rooted kept.reverse) = assemble rooted kept.reverse := by
  obtain ⟨absolute, parts⟩ := cleanComponents_folder settled
  rw [clean, absolute, parts]

/-! ## The last component -/

theorem trimEnd_append (component : IsComponent c) (before : Text) :
    trimEnd (before ++ c) = before ++ c := by
  obtain ⟨nonempty, bare⟩ := component
  obtain ⟨start, b, rfl⟩ := c.eq_nil_or_concat.resolve_left nonempty
  have other : b ≠ slash := fun same => bare (by simp [same])
  unfold trimEnd
  rw [List.concat_eq_append, ← List.append_assoc, List.reverse_append, List.reverse_singleton,
    List.singleton_append, List.dropWhile_cons, if_neg (by simpa using other), List.reverse_cons,
    List.reverse_reverse]

theorem base_folder_append (component : IsComponent c) (rooted : Bool) (cs : List Text) :
    base (folder rooted cs ++ c) = c := by
  have nonempty : ∀ before : Text, (before ++ c).isEmpty = false := fun before => by
    simp [component.nonempty]
  have stops : (folder rooted cs).reverse.takeWhile (· != slash) = [] := by
    rcases folder_cases rooted cs with ⟨_, _, empty⟩ | ⟨before, ends⟩
    · rw [empty]
      rfl
    · rw [ends]
      simp
  simp only [base, trimEnd_append component, nonempty, Bool.false_eq_true, if_false]
  rw [List.reverse_append, List.takeWhile_append_of_pos (bne_slash_of_mem_reverse component.bare), stops,
    List.append_nil, List.reverse_reverse]

theorem name?_folder_append (plain : Plain c) (rooted : Bool) (cs : List Text) :
    name? (folder rooted cs ++ c) = some c := by
  have nonempty : (folder rooted cs ++ c).isEmpty = false := by simp [plain.nonempty]
  simp only [name?, trimEnd_append plain.toIsComponent, nonempty,
    base_folder_append plain.toIsComponent, plain.not_here, plain.not_up, decide_false, Bool.or_self,
    Bool.false_eq_true, if_false]

theorem directory_folder_append (bare : slash ∉ c) (rooted : Bool) (cs : List Text) :
    directory (folder rooted cs ++ c) = clean (folder rooted cs) := by
  rcases folder_cases rooted cs with ⟨_, _, empty⟩ | ⟨before, ends⟩
  · rw [empty]
    exact directory_of_not_mem bare
  · rw [ends, List.append_assoc, List.singleton_append]
    exact directory_append bare

/-- The directory of a cleaned path is the path without its last component. -/
theorem directory_assemble (settled : Kept rooted (c :: kept)) :
    directory (assemble rooted (kept.reverse ++ [c])) = assemble rooted kept.reverse := by
  rw [assemble_concat, directory_folder_append (settled.isComponent c List.mem_cons_self).bare,
    clean_folder settled.tail]

theorem assemble_eq_here_iff (settled : Kept rooted kept) :
    assemble rooted kept.reverse = here ↔ folder rooted kept.reverse = [] := by
  constructor
  · intro dot
    obtain ⟨absolute, parts⟩ := cleanComponents_assemble settled
    rw [dot] at absolute parts
    rw [← absolute, ← parts]
    rfl
  · intro empty
    rw [← clean_folder settled, empty]
    rfl

theorem parent?_folder_append (component : IsComponent c) (settled : Kept rooted kept) :
    parent? (folder rooted kept.reverse ++ c) =
      if assemble rooted kept.reverse = here then none else some (assemble rooted kept.reverse) := by
  unfold parent?
  simp only [trimEnd_append component, assemble_eq_here_iff settled]
  rw [directory_folder_append component.bare, clean_folder settled]
  rcases folder_cases rooted kept.reverse with ⟨_, _, empty⟩ | ⟨before, ends⟩
  · rw [if_neg (by simpa [empty] using component.bare), if_pos empty]
  · rw [if_pos (by simp [ends]), if_neg (by simp [ends])]

/-! ## Extended paths -/

/-- A plain name becomes the last component of the cleaned path. -/
theorem extend_eq (plain : Plain c) (path : Text) :
    extend path c = folder (isAbsolute path) (cleanComponents path) ++ c := by
  unfold extend
  rw [isAbsolute_of_not_mem plain.bare, Bool.false_or]
  cases path with
  | nil => rfl
  | cons b rest =>
      obtain ⟨d, ds, rfl⟩ := List.exists_cons_of_ne_nil plain.nonempty
      have absolute : isAbsolute ((b :: rest) ++ slash :: d :: ds) = isAbsolute (b :: rest) := rfl
      rw [← assemble_concat]
      show assemble (isAbsolute ((b :: rest) ++ slash :: d :: ds)) (cleanComponents _) = _
      rw [absolute, cleanComponents, cleanComponents, absolute, components_append,
        components_of_isComponent plain.toIsComponent, List.foldl_append, List.foldl_cons, List.foldl_nil]
      unfold cleanStep
      rw [if_neg plain.not_here, if_neg plain.not_up, List.reverse_cons]

theorem name?_extend (plain : Plain c) (path : Text) : name? (extend path c) = some c := by
  rw [extend_eq plain, name?_folder_append plain]

theorem parent?_extend (plain : Plain c) (path : Text) :
    parent? (extend path c) = if clean path = here then none else some (clean path) := by
  have found := parent?_folder_append plain.toIsComponent (kept_cleanComponents path)
  rw [List.reverse_reverse] at found
  rw [extend_eq plain, found]
  rfl

end Path

namespace Operation

open TableMachine.Path

variable (files : Files) (heap : Heap)

theorem element_name (path : Text) :
    element files heap (.path path) (.string "name") = .ok (textOrNull .string (name? path), heap) := rfl

theorem element_parent (path : Text) :
    element files heap (.path path) (.string "parent") =
      .ok (textOrNull .path (parent? path), heap) := rfl

/-- Dividing a path or a text by a plain name gives a path of that name. Its parent is the cleaned path
that was divided, or null where that is the dot. -/
theorem divided_path_answers {dividend : Value} {path name : Text}
    (divides : dividend = .path path ∨ dividend = .string path) (plain : Plain name) :
    ∃ quotient, binary heap .div dividend (.string name) = .ok (.path quotient) ∧
      element files heap (.path quotient) (.string "name") = .ok (.string name, heap) ∧
      element files heap (.path quotient) (.string "parent") =
        .ok (if clean path = here then .null else .path (clean path), heap) := by
  refine ⟨extend path name, ?_, ?_, ?_⟩
  · rcases divides with rfl | rfl <;> rfl
  · rw [element_name, name?_extend plain]
    rfl
  · rw [element_parent, parent?_extend plain]
    split <;> rfl

/-- A text with double dots, a dot and slashes to clean away, divided by a name that begins with two
dots. -/
theorem divided_path_answers_of_winding :
    ∃ quotient, binary {} .div (.string "../a//b/./..") (.string "..c") = .ok (.path quotient) ∧
      element (.empty []) {} (.path quotient) (.string "name") = .ok (.string "..c", {}) ∧
      element (.empty []) {} (.path quotient) (.string "parent") = .ok (.path "../a", {}) := by
  have divides : Value.string "../a//b/./.." = .path "../a//b/./.." ∨
      Value.string "../a//b/./.." = .string "../a//b/./.." := .inr rfl
  have plain : Plain "..c" := ⟨⟨by decide, by decide⟩, by decide, by decide⟩
  obtain ⟨quotient, divided, name, parent⟩ := divided_path_answers (.empty []) {} divides plain
  have cleaned : clean "../a//b/./.." = "../a" := by decide
  rw [cleaned, if_neg (by decide)] at parent
  exact ⟨quotient, divided, name, parent⟩

end Operation

end TableMachine
