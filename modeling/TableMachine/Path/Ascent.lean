import TableMachine.Path

/-! # Going up

Taking the directory of a path again and again ends: what it changes it also shortens, but for a
path without slashes, whose directory is the dot. `Path.rank` is the measure of that. Along the way
it is counted what cleaning does to the length of a path.
-/

namespace TableMachine.Path

open Text

theorem components_append (before after : Text) :
    components (before ++ slash :: after) = components before ++ components after := by
  simp only [components, splitOn_append, List.filter_append]

@[simp] theorem components_nil : components [] = [] := rfl

/-- The bytes of components and of one slash for each. -/
def weight : List Text → Nat
  | [] => 0
  | c :: cs => c.length + 1 + weight cs

@[simp] theorem weight_nil : weight [] = 0 := rfl

@[simp] theorem weight_cons (c : Text) (cs : List Text) :
    weight (c :: cs) = c.length + 1 + weight cs := rfl

theorem weight_splitOn (path : Text) : weight (splitOn slash path) = path.length + 1 := by
  induction path with
  | nil => rfl
  | cons b rest ih =>
      unfold splitOn
      split
      · rw [weight_cons, ih, List.length_cons, List.length_nil]
        omega
      · cases pieces : splitOn slash rest with
        | nil => exact absurd pieces (splitOn_ne_nil slash rest)
        | cons piece pieces' =>
            rw [pieces, weight_cons] at ih
            simp only [weight_cons, List.length_cons]
            omega

theorem weight_filter_le (p : Text → Bool) (cs : List Text) :
    weight (cs.filter p) ≤ weight cs := by
  induction cs with
  | nil => exact Nat.le_refl _
  | cons c cs ih =>
      rw [List.filter_cons]
      split <;> simp only [weight_cons] <;> omega

/-- At the root the first slash belongs to no component. -/
theorem weight_components_le (path : Text) :
    weight (components path) + (if isAbsolute path then 1 else 0) ≤ path.length + 1 := by
  split
  · rename_i absolute
    cases path with
    | nil => cases absolute
    | cons b rest =>
        obtain rfl : b = slash := by simpa [isAbsolute] using absolute
        have skipped : components (slash :: rest) = components rest :=
          components_append [] rest
        have := weight_filter_le (· ≠ []) (splitOn slash rest)
        rw [weight_splitOn] at this
        rw [skipped, List.length_cons]
        unfold components
        omega
  · have := weight_filter_le (· ≠ []) (splitOn slash path)
    rw [weight_splitOn] at this
    exact this

theorem weight_cleanStep_le (rooted : Bool) (kept : List Text) (component : Text) :
    weight (cleanStep rooted kept component) ≤ weight kept + (component.length + 1) := by
  unfold cleanStep
  split
  · omega
  · split
    · rename_i above
      subst above
      cases kept with
      | nil => cases rooted <;> simp
      | cons last rest =>
          simp only
          split <;> simp only [weight_cons] <;> omega
    · rw [weight_cons]
      omega

theorem weight_foldl_cleanStep_le (rooted : Bool) (kept cs : List Text) :
    weight (cs.foldl (cleanStep rooted) kept) ≤ weight kept + weight cs := by
  induction cs generalizing kept with
  | nil => exact Nat.le_refl _
  | cons c cs ih =>
      have := weight_cleanStep_le rooted kept c
      have := ih (cleanStep rooted kept c)
      rw [List.foldl_cons, weight_cons]
      omega

theorem weight_append (cs ds : List Text) : weight (cs ++ ds) = weight cs + weight ds := by
  induction cs with
  | nil => simp
  | cons c cs ih =>
      rw [List.cons_append, weight_cons, weight_cons, ih]
      omega

theorem weight_reverse (cs : List Text) : weight cs.reverse = weight cs := by
  induction cs with
  | nil => rfl
  | cons c cs ih =>
      rw [List.reverse_cons, weight_append, ih, weight_cons, weight_cons, weight_nil]
      omega

theorem weight_cleanComponents_le (path : Text) :
    weight (cleanComponents path) ≤ weight (components path) := by
  have := weight_foldl_cleanStep_le (isAbsolute path) [] (components path)
  rw [weight_nil, Nat.zero_add] at this
  rwa [cleanComponents, weight_reverse]

theorem length_joinWith_cons (c : Text) (cs : List Text) :
    (joinWith [slash] (c :: cs)).length + 1 = weight (c :: cs) := by
  induction cs generalizing c with
  | nil => simp [joinWith]
  | cons d cs ih =>
      have := ih d
      simp only [joinWith, weight_cons] at this ⊢
      rw [List.intercalate_cons_cons, List.length_append, List.length_append, List.length_singleton]
      omega

theorem length_assemble_le (rooted : Bool) (cs : List Text) :
    (assemble rooted cs).length ≤ max 1 (weight cs + (if rooted then 1 else 0) - 1) := by
  unfold assemble
  cases cs with
  | nil => cases rooted <;> simp [joinWith, here]
  | cons c cs =>
      have := length_joinWith_cons c cs
      cases rooted <;>
        simp only [List.length_cons, List.isEmpty_cons, if_true, if_false, Bool.false_eq_true] <;> omega

/-- Cleaning lengthens no path but the empty one. -/
theorem length_clean_le {path : Text} (nonempty : path ≠ []) :
    (clean path).length ≤ path.length := by
  have := List.length_pos_iff.mpr nonempty
  have := weight_components_le path
  have := weight_cleanComponents_le path
  have := length_assemble_le (isAbsolute path) (cleanComponents path)
  unfold clean
  omega

/-- A measure of paths that taking the directory lowers, unless it changes nothing. -/
def rank (path : Text) : Nat := if path = here then 0 else path.length + 1

theorem rank_clean_le {path : Text} (nonempty : path ≠ []) :
    rank (clean path) ≤ path.length + 1 := by
  have := length_clean_le nonempty
  unfold rank
  split <;> omega

theorem clean_append_slash {path : Text} (nonempty : path ≠ []) :
    clean (path ++ [slash]) = clean path := by
  have absolute : isAbsolute (path ++ [slash]) = isAbsolute path := by
    cases path with
    | nil => exact absurd rfl nonempty
    | cons b rest => rfl
  have same : components (path ++ [slash]) = components path := by
    rw [components_append, components_nil, List.append_nil]
  unfold clean cleanComponents
  rw [absolute, same]

theorem bne_slash_of_mem_reverse {text : Text} (bare : slash ∉ text) :
    ∀ b ∈ text.reverse, (b != slash) = true := by
  intro b member
  rw [bne_iff_ne]
  rintro rfl
  exact bare (List.mem_reverse.mp member)

theorem directory_of_not_mem {path : Text} (bare : slash ∉ path) : directory path = here := by
  unfold directory
  rw [← List.append_nil path.reverse,
    List.dropWhile_append_of_pos (bne_slash_of_mem_reverse bare)]
  rfl

theorem directory_append {before last : Text} (bare : slash ∉ last) :
    directory (before ++ slash :: last) = clean (before ++ [slash]) := by
  unfold directory
  rw [List.reverse_append, List.reverse_cons, List.append_assoc,
    List.dropWhile_append_of_pos (bne_slash_of_mem_reverse bare)]
  simp

/-- A path without a slash is its own last component; in any other the last slash stands before
it. -/
theorem bare_or_append (path : Text) :
    slash ∉ path ∨ ∃ before last, path = before ++ slash :: last ∧ slash ∉ last := by
  by_cases member : slash ∈ path
  · obtain ⟨last, before, split, bare⟩ :=
      List.eq_append_cons_of_mem (List.mem_reverse.mpr member)
    refine .inr ⟨before.reverse, last.reverse, ?_, by simpa using bare⟩
    rw [← List.reverse_reverse path, split]
    simp
  · exact .inl member

theorem rank_directory_lt {path : Text} (changes : directory path ≠ path) :
    rank (directory path) < rank path := by
  have positive (different : path ≠ here) : rank path = path.length + 1 := if_neg different
  rcases bare_or_append path with bare | ⟨before, last, rfl, bare⟩
  · rw [directory_of_not_mem bare] at changes ⊢
    rw [positive changes.symm]
    exact Nat.succ_pos _
  · have different : before ++ slash :: last ≠ here := by
      intro dot
      have : slash ∈ here := dot ▸ (by simp)
      simp [slash, here] at this
    rw [positive different, List.length_append, List.length_cons]
    rw [directory_append bare] at changes ⊢
    cases before with
    | nil =>
        cases last with
        | nil => exact absurd rfl changes
        | cons b rest =>
            show (2 : Nat) < _
            simp
    | cons b rest =>
        have shorter : rank (clean (b :: rest)) ≤ (b :: rest).length + 1 := rank_clean_le (by simp)
        rw [clean_append_slash (by simp)]
        omega

end TableMachine.Path
