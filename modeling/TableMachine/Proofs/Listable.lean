import TableMachine.Proofs.Listing
import TableMachine.Proofs.Loading

/-! # Which programs have a listing

Most of what a listing looks up may be missing, and is then shown as such: constants, names, regions, lines, and the
last bytes of the code. The error type of a catch clause is the exception. Its position is compared with the end of
the names only, so a negative one other than `noIndex` is looked up before their beginning. Here a program that was
loaded has a listing if and only if no clause of its chunks has such a position, and the loop over its code ends.
-/

namespace TableMachine

/-- No clause of the chunk names its error type by a negative position. -/
def Chunk.NamesTypes (c : Chunk) : Prop :=
  ∀ region ∈ c.regions.entries, ∀ clause ∈ region.clauses, noIndex ≤ clause.errorType

/-- The main chunk and those of the functions. -/
def Program.chunks (p : Program) : List Chunk :=
  p.main.toList ++ p.functions.toList.filterMap fun entry => entry.bind Function.chunk

namespace Listing

variable {α β : Type}

/-- All members together have a listing if each of them has one. -/
theorem mapM_isSome {f : α → Option β} (xs : List α) : (xs.mapM f).isSome ↔ ∀ x ∈ xs, (f x).isSome := by
  induction xs with
  | nil => simp
  | cons x xs ih =>
      rw [List.mapM_cons, List.forall_mem_cons, ← ih]
      cases f x with
      | none => simp
      | some y => cases xs.mapM f <;> simp

/-- Their numbers make no difference. -/
theorem mapM_zipIdx_isSome {f : α → Nat → Option β} {P : α → Prop} (xs : List α)
    (each : ∀ x ∈ xs, ∀ i, (f x i).isSome ↔ P x) :
    (xs.zipIdx.mapM fun (x, i) => f x i).isSome ↔ ∀ x ∈ xs, P x := by
  rw [mapM_isSome]
  constructor
  · intro listed x member
    obtain ⟨i, found⟩ := List.mem_iff_getElem?.mp member
    exact (each x member i).mp (listed (x, i) (List.mk_mem_zipIdx_iff_getElem?.mpr found))
  · rintro holds ⟨x, i⟩ member
    have inside := List.mem_of_getElem? (List.mk_mem_zipIdx_iff_getElem?.mp member)
    exact (each x inside i).mpr (holds x inside)

end Listing

/-! ## Chunks -/

namespace Chunk

variable {c : Chunk}

theorem listClause?_isSome (clause : CatchClause) :
    (c.listClause? clause).isSome ↔ noIndex ≤ clause.errorType := by
  unfold listClause?
  simp only [CatchClause.isTyped, Bool.and_eq_true, bne_iff_ne, ne_eq, decide_eq_true_eq]
  split
  · rename_i typed
    split
    · rename_i negative
      have before : ¬ noIndex ≤ clause.errorType := fun le =>
        typed.1 (Int.le_antisymm (Int.lt_add_one_iff.mp negative) le)
      simp [before]
    · rename_i position
      have stored : clause.errorType.toNat < c.errorTypes.entries.size := by omega
      have after : noIndex ≤ clause.errorType := Int.le_trans (by decide) (Int.not_lt.mp position)
      simp [stored, after]
  · rename_i other
    have after : noIndex ≤ clause.errorType := by
      unfold noIndex at *
      omega
    simp [after]

theorem listRegion?_isSome (region : TryRegion) (i : Nat) :
    (c.listRegion? i region).isSome ↔ ∀ clause ∈ region.clauses, noIndex ≤ clause.errorType := by
  unfold listRegion?
  rw [← forall₂_congr fun clause _ => listClause?_isSome (c := c) clause, ← Listing.mapM_isSome]
  cases region.clauses.mapM c.listClause? <;> simp

theorem listing?_isSome (name : Text) : (c.listing? name).isSome ↔ c.NamesTypes := by
  have regions := Listing.mapM_zipIdx_isSome (f := fun r i => c.listRegion? i r) c.regions.entries.toList
    fun region _ i => listRegion?_isSome region i
  unfold listing? NamesTypes
  simp only [Array.mem_toList_iff] at regions
  rw [← regions, Option.bind_eq_bind, Option.isSome_bind]
  simp [Option.any_true]

/-- Once the code is over, no round is left to do. -/
theorem listCode_of_le {fuel offset : Nat} (enough : c.codeSize ≤ offset + fuel) (more : Nat) (line : Int) :
    c.listCode (fuel + more) offset line = c.listCode fuel offset line := by
  induction fuel generalizing offset line with
  | zero =>
      cases more with
      | zero => rfl
      | succ more =>
          rw [Nat.zero_add, listCode, listCode, if_neg (by omega)]
  | succ fuel ih =>
      rw [Nat.succ_add, listCode, listCode]
      split
      · rename_i inside
        obtain ⟨text, n, listed, positive, -⟩ := c.listInstruction?_inside inside
        simp only [listed]
        rw [ih (by omega)]
      · rfl

end Chunk

/-! ## Programs -/

theorem Function.listing?_isSome {f : Function} {chunk : Chunk} (present : f.chunk = some chunk) (i : Nat) :
    (f.listing? i).isSome ↔ chunk.NamesTypes := by
  unfold listing?
  rw [present]
  simp only [Option.bind_eq_bind, Option.bind_some]
  rw [← Chunk.listing?_isSome]
  cases chunk.listing? _ <;> rfl

/-- A program without holes has a listing if its chunks have. -/
theorem Program.listing?_isSome {p : Program} {main : Chunk} (present : p.main = some main)
    (whole : ∀ entry ∈ p.functions.toList, ∃ f chunk, entry = some f ∧ f.chunk = some chunk) :
    p.listing?.isSome ↔ ∀ c ∈ p.chunks, c.NamesTypes := by
  have functions := Listing.mapM_zipIdx_isSome
    (f := fun (entry : Option Function) i => entry.bind fun f => f.listing? i)
    (P := fun entry => ∀ c, entry.bind Function.chunk = some c → c.NamesTypes) p.functions.toList
    fun entry member i => by
      obtain ⟨f, chunk, rfl, present⟩ := whole entry member
      simp [present, Function.listing?_isSome present]
  have chunks : (∀ c ∈ p.chunks, c.NamesTypes) ↔ main.NamesTypes ∧
      ∀ entry ∈ p.functions.toList, ∀ c, entry.bind Function.chunk = some c → c.NamesTypes := by
    unfold chunks
    rw [present]
    simp only [Option.toList_some, List.singleton_append, List.forall_mem_cons, List.mem_filterMap]
    exact and_congr_right fun _ => ⟨fun each entry member c found => each c ⟨entry, member, found⟩,
      fun each c ⟨entry, member, found⟩ => each entry member c found⟩
  rw [chunks, ← functions, ← Chunk.listing?_isSome "<main>"]
  unfold listing?
  rw [present]
  simp only [Option.bind_eq_bind, Option.bind_some]
  cases main.listing? "<main>" with
  | none => simp
  | some body =>
      rw [Option.isSome_some, Option.bind_some, Option.isSome_bind]
      simp [Option.any_true]

namespace Artifact

variable {data : Text} {p : Program}

/-- A program that was loaded has a listing, except where a clause names its error type by a negative position that
is not `noIndex`. A machine never takes such a clause. The loop over the code of a chunk is over after as many rounds
as the code has bytes. -/
theorem load_listed_iff (loaded : load data = .ok p) :
    (p.listing?.isSome ↔ ∀ c ∈ p.chunks, c.NamesTypes) ∧
    (∀ c ∈ p.chunks, ∀ more, c.listCode (c.codeSize + more) 0 (-1) = c.listCode c.codeSize 0 (-1)) ∧
    ∀ clause : CatchClause, clause.errorType < noIndex → ∀ names t, clause.accepts names t = false := by
  refine ⟨?_, fun c _ more => Chunk.listCode_of_le (by omega) more (-1), ?_⟩
  · obtain ⟨_, _, _, _, completed⟩ := load_ok loaded
    obtain ⟨main, functions, _, _, rfl⟩ := complete_ok completed
    refine Program.listing?_isSome rfl fun entry member => ?_
    obtain ⟨f, chunk, same, present, _⟩ := load_functions loaded (Array.mem_toList_iff.mp member)
    exact ⟨f, chunk, same, present⟩
  · intro clause before names t
    have typed : clause.isTyped = true := bne_iff_ne.mpr (Int.ne_of_lt before)
    unfold CatchClause.accepts
    rw [typed, if_neg (by decide), if_pos (Int.lt_trans before (by decide))]

end Artifact

/-! ## A position before the beginning

One clause in the main chunk, and no names of error types. The clause has no type, or one at the position before
that of `noIndex`.
-/

namespace Underrun

def main (errorType : Int) : Chunk :=
  { Chunk.empty with
    code := none
    constants := none
    regions := some #[⟨some #[⟨0, errorType, noIndex⟩], noIndex⟩] }

def program (errorType : Int) : Program := ⟨some (main errorType), #[]⟩

/-- The artifact, by the byte that stands for the error type. -/
def artifact (errorType : UInt8) : Text :=
  [0x44, 0x43, 0x42, 0x43, 1, 0, 0xA1, 1, 0xA8, 1, 1, 2, 0xF6, 3, 0xF6, 4, 0xF6, 5, 0x81, 0xA2, 1, 0x81, 0xA3,
    1, 0, 2, errorType, 3, 0x20, 2, 0x20, 6, 0xF6, 7, 0xF6, 8, 0xF6]

end Underrun

namespace Artifact

theorem load_listed_iff_of_underrun :
    load (Underrun.artifact 0x20) = .ok (Underrun.program (-1)) ∧ (Underrun.program (-1)).listing?.isSome ∧
    load (Underrun.artifact 0x21) = .ok (Underrun.program (-2)) ∧ (Underrun.program (-2)).listing? = none := by
  have typeless : load (Underrun.artifact 0x20) = .ok (Underrun.program (-1)) := by decide +kernel
  have typed : load (Underrun.artifact 0x21) = .ok (Underrun.program (-2)) := by decide +kernel
  have chunks (errorType : Int) : (∀ c ∈ (Underrun.program errorType).chunks, c.NamesTypes) ↔ noIndex ≤ errorType := by
    simp [Program.chunks, Underrun.program, Underrun.main, Chunk.NamesTypes, TryRegion.clauses,
      Section.entries]
  refine ⟨typeless, ((load_listed_iff typeless).1.trans (chunks (-1))).mpr (by decide), typed, ?_⟩
  have unlisted := ((load_listed_iff typed).1.trans (chunks (-2))).not.mpr (by decide)
  exact Option.not_isSome_iff_eq_none.mp unlisted

end Artifact

end TableMachine
