import TableMachine.Native.Builtin
import TableMachine.Proofs.References

/-! # Reports of the built-in natives

A native sees the heap and may change it. Each of the built-in ones leaves a closed heap in which nothing
is lost, and answers with a value that is good there, whatever it is called with.
-/

namespace TableMachine

/-- The report leaves a closed heap in which nothing is lost, and its value is good there. -/
structure Report.Good (host : Host) (report : Report) : Prop where
  extends_ : host.heap.Extends report.host.heap
  value : report.host.heap.Has report.value

/-- From good arguments the native makes a good report. -/
def Native.Sound (native : Native) : Prop :=
  ∀ (host : Host) (arguments : List Value), host.heap.Closed → (∀ v ∈ arguments, host.heap.Has v) →
    (native.run host arguments).Good host

namespace Native

variable {host : Host} {name : Text}

theorem refuse_good (closed : host.heap.Closed) (t : ErrorType) (message : Text) :
    (refuse host t message).Good host := ⟨closed.extends_self, trivial⟩

theorem failure_good (closed : host.heap.Closed) (t : ErrorType) (message : Text) :
    (failure host t message).Good host := ⟨closed.extends_self, trivial⟩

theorem one_sound {run : Host → Value → Report} (good : ∀ (host : Host) (v : Value),
      host.heap.Closed → host.heap.Has v → (run host v).Good host) : (one name run).Sound := by
  intro host arguments closed live
  unfold one
  simp only
  split
  · exact good host _ closed (live _ List.mem_cons_self)
  · exact refuse_good closed _ _

theorem two_sound {run : Host → Value → Value → Report} (good : ∀ (host : Host) (v w : Value),
      host.heap.Closed → host.heap.Has v → host.heap.Has w → (run host v w).Good host) :
    (two name run).Sound := by
  intro host arguments closed live
  unfold two
  simp only
  split
  · exact good host _ _ closed (live _ (by simp)) (live _ (by simp))
  · exact refuse_good closed _ _

theorem print_sound : print.Sound := by
  intro host arguments closed live
  unfold print printLine?
  simp only
  split
  · rename_i printed
    split at printed
    · cases printed
    · cases printed
      exact ⟨closed.extends_self, trivial⟩
  · exact failure_good closed _ _

theorem len_sound : len.Sound := by
  refine one_sound fun host v closed has => ?_
  cases v with
  | array r => exact ⟨closed.extends_self, trivial⟩
  | table r => exact ⟨closed.extends_self, trivial⟩
  | string t => exact ⟨closed.extends_self, trivial⟩
  | object r => exact ⟨closed.extends_self, trivial⟩
  | _ => exact refuse_good closed _ _

theorem table_sound : table.Sound := by
  refine one_sound fun host v closed has => ?_
  cases v with
  | array r =>
      simp only
      split
      · refine ⟨Heap.newTable_extends closed ?_, Heap.newTable_has _ _⟩
        intro row member
        cases member
      · exact refuse_good closed _ _
  | _ => exact refuse_good closed _ _

theorem addRow_sound : addRow.Sound := by
  refine two_sound fun host v w closed has given => ?_
  split
  · rename_i t r
    simp only
    split
    · rename_i table added
      have extends_ : host.heap.Extends (host.heap.setTable t table) := by
        refine Heap.setTable_extends closed t fun row member v cell => ?_
        unfold Table.addRow? at added
        split at added
        · cases added
          rcases List.mem_append.mp member with old | new
          · exact closed.table t row old v cell
          · rw [List.mem_singleton.mp new] at cell
            exact closed.array r v (Array.mem_toList_iff.mp cell)
        · cases added
      exact ⟨extends_, extends_.has has⟩
    · exact failure_good closed _ _
  · exact refuse_good closed _ _

theorem relate_sound : relate.Sound := by
  refine two_sound fun host v w closed _ _ => ?_
  split
  · rename_i report related
    unfold Report.relate? at related
    obtain ⟨_, _, related⟩ := Option.bind_eq_some_iff.mp related
    obtain ⟨_, _, related⟩ := Option.bind_eq_some_iff.mp related
    cases related
    exact ⟨closed.extends_self, trivial⟩
  · exact refuse_good closed _ _

theorem primaryKey_sound : primaryKey.Sound := by
  refine one_sound fun host v closed _ => ?_
  split
  · rename_i report declared
    unfold Report.primaryKey? at declared
    obtain ⟨_, _, declared⟩ := Option.bind_eq_some_iff.mp declared
    cases declared
    exact ⟨closed.extends_self, trivial⟩
  · exact refuse_good closed _ _

theorem push_sound : push.Sound := by
  refine two_sound fun host v w closed has added => ?_
  cases v with
  | array r =>
      have extends_ : host.heap.Extends (host.heap.append r [w]) :=
        Heap.append_extends closed r fun v member => by rw [List.mem_singleton.mp member]; exact added
      exact ⟨extends_, extends_.has has⟩
  | _ => exact refuse_good closed _ _

theorem readFile_sound : readFile.Sound := by
  refine one_sound fun host v closed _ => ?_
  split
  · split
    · exact ⟨closed.extends_self, trivial⟩
    · exact failure_good closed _ _
  · split
    · exact ⟨closed.extends_self, trivial⟩
    · exact failure_good closed _ _
  · exact refuse_good closed _ _

theorem builtins_sound : ∀ native ∈ builtins, native.Sound := by
  simp only [builtins, List.forall_mem_cons]
  exact ⟨print_sound, len_sound, table_sound, addRow_sound, relate_sound, primaryKey_sound, push_sound,
    readFile_sound, by simp⟩

end Native

end TableMachine
