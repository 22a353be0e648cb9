import TableMachine.Proofs.Exporting
import TableMachine.Proofs.Numbers

/-! # What decides the affinity of a column

The affinity of a column is found by widening a running one from value to value, past the nulls. Which
affinity that gives is said here by the kinds of the values alone: a column of nulls, or one with a value that
is neither null nor a truth value nor a number, holds texts; any other holds integers if all of its values
but the nulls are integral, and reals if not. None of this looks at the order of the values, so the rows of a
table may be put in any order.
-/

namespace TableMachine.Export

variable {values others : List Value}

/-- A truth value, or a finite number whose absolute value is an integer. -/
def IsIntegral : Value → Prop
  | .bool _ => True
  | .number x => x.isFinite = true ∧ ∃ k, x.Measures k 0
  | _ => False

/-- No value is other than null, or some value can only be written as a text. -/
def CallsForText (values : List Value) : Prop :=
  (∀ v ∈ values, v = .null) ∨ ∃ v ∈ values, ¬ IsNumeric v

/-- All values but the nulls are integral. -/
def AllIntegral (values : List Value) : Prop := ∀ v ∈ values, v ≠ .null → IsIntegral v

theorem not_callsForText {v : Value} (numeric : ∀ v ∈ values, IsNumeric v) (listed : v ∈ values)
    (value : v ≠ .null) : ¬ CallsForText values := by
  rintro (nulls | ⟨w, member, other⟩)
  · exact value (nulls v listed)
  · exact other (numeric w member)

theorem isIntegral_of_isNumeric {v : Value} (numeric : IsNumeric v) (value : v ≠ .null)
    (whole : ∀ x, v = .number x → x.isInteger = true) : IsIntegral v := by
  cases v with
  | null => exact absurd rfl value
  | bool b => trivial
  | number x => exact Number.isInteger_iff.mp (whole x rfl)
  | _ => exact numeric.elim

theorem not_isIntegral_of_fraction {x : Number} (fraction : x.isInteger = false) :
    ¬ IsIntegral (.number x) := fun integral =>
  Bool.false_ne_true (fraction.symm.trans (Number.isInteger_iff.mpr integral))

/-- Each affinity is found for values of its own kinds only. -/
theorem columnAffinity_cases (values : List Value) :
    (columnAffinity values = .text ∧ CallsForText values) ∨
      (¬ CallsForText values ∧
        (columnAffinity values = .integer ∧ AllIntegral values ∨
          columnAffinity values = .real ∧ ¬ AllIntegral values)) := by
  have fits := fitting_foldl values
  rw [columnAffinity]
  generalize values.foldl widenBy none = fitting at fits ⊢
  cases fitting with
  | none => exact .inl ⟨rfl, .inl fits⟩
  | some found =>
      cases found with
      | text => exact .inl ⟨rfl, .inr fits⟩
      | integer =>
          obtain ⟨numeric, ⟨v, listed, value⟩, whole⟩ := fits
          refine .inr ⟨not_callsForText numeric listed value, .inl ⟨rfl, fun w member value => ?_⟩⟩
          exact isIntegral_of_isNumeric (numeric w member) value fun x same => whole x (same ▸ member)
      | real =>
          obtain ⟨numeric, x, listed, fraction⟩ := fits
          refine .inr ⟨not_callsForText numeric listed nofun, .inr ⟨rfl, fun integral => ?_⟩⟩
          exact not_isIntegral_of_fraction fraction (integral _ listed nofun)

theorem columnAffinity_eq_text_iff : columnAffinity values = .text ↔ CallsForText values := by
  rcases columnAffinity_cases values with ⟨found, calls⟩ | ⟨other, ⟨found, _⟩ | ⟨found, _⟩⟩
  · exact iff_of_true found calls
  · exact iff_of_false (by rw [found]; nofun) other
  · exact iff_of_false (by rw [found]; nofun) other

theorem columnAffinity_eq_integer_iff (other : ¬ CallsForText values) :
    columnAffinity values = .integer ↔ AllIntegral values := by
  rcases columnAffinity_cases values with ⟨_, calls⟩ | ⟨_, ⟨found, integral⟩ | ⟨found, mixed⟩⟩
  · exact absurd calls other
  · exact iff_of_true found integral
  · exact iff_of_false (by rw [found]; nofun) mixed

theorem columnAffinity_eq_real_iff (other : ¬ CallsForText values) :
    columnAffinity values = .real ↔ ¬ AllIntegral values := by
  rcases columnAffinity_cases values with ⟨_, calls⟩ | ⟨_, ⟨found, integral⟩ | ⟨found, mixed⟩⟩
  · exact absurd calls other
  · exact iff_of_false (by rw [found]; nofun) (not_not_intro integral)
  · exact iff_of_true found mixed

/-- Neither the order of the values nor how often one occurs makes a difference. -/
theorem columnAffinity_congr (same : ∀ v, v ∈ values ↔ v ∈ others) :
    columnAffinity values = columnAffinity others := by
  have text : CallsForText values ↔ CallsForText others := by simp only [CallsForText, same]
  have integral : AllIntegral values ↔ AllIntegral others := by simp only [AllIntegral, same]
  rcases columnAffinity_cases others with ⟨found, calls⟩ | ⟨other, ⟨found, whole⟩ | ⟨found, mixed⟩⟩
  · rw [found, columnAffinity_eq_text_iff, text]
    exact calls
  · rw [found, columnAffinity_eq_integer_iff (text.not.mpr other), integral]
    exact whole
  · rw [found, columnAffinity_eq_real_iff (text.not.mpr other), integral]
    exact mixed

theorem columnIndex?_withRows (t : Table) (rows : List (List Value)) (header : Text) :
    { t with rows := rows }.columnIndex? header = t.columnIndex? header := by
  have stale : { t with rows := rows }.isStale = t.isStale := rfl
  rw [Table.columnIndex?, Table.columnIndex?, Table.refreshed, Table.refreshed, stale]
  cases t.isStale <;> rfl

theorem columns_of_perm {t : Table} {rows : List (List Value)} (reordered : t.rows.Perm rows) :
    columns { t with rows := rows } = columns t := by
  refine List.map_congr_left fun header _ => congrArg (Prod.mk header) (columnAffinity_congr fun v => ?_)
  rw [Table.column?, Table.column?, columnIndex?_withRows]
  cases t.columnIndex? header with
  | none => rfl
  | some i => exact (reordered.map fun row => row.getD i .null).mem_iff.symm

/-- The affinity of a column follows from the kinds of its values, so it is the same in every order of the
rows. -/
theorem columnAffinity_by_kinds (values : List Value) :
    (columnAffinity values = .text ↔ (∀ v ∈ values, v = .null) ∨ ∃ v ∈ values, ¬ IsNumeric v) ∧
    (columnAffinity values ≠ .text →
      (columnAffinity values = .integer ↔ ∀ v ∈ values, v ≠ .null → IsIntegral v) ∧
      (columnAffinity values = .real ↔ ∃ v ∈ values, v ≠ .null ∧ ¬ IsIntegral v)) ∧
    (∀ reordered, values.Perm reordered → columnAffinity reordered = columnAffinity values) ∧
    ∀ (t : Table) (rows : List (List Value)), t.rows.Perm rows →
      columns { t with rows := rows } = columns t := by
  refine ⟨columnAffinity_eq_text_iff, fun found => ?_, fun reordered permuted => ?_,
    fun t rows permuted => columns_of_perm permuted⟩
  · have other : ¬ CallsForText values := fun calls => found (columnAffinity_eq_text_iff.mpr calls)
    refine ⟨columnAffinity_eq_integer_iff other, ?_⟩
    rw [columnAffinity_eq_real_iff other]
    simp only [AllIntegral, not_forall, exists_prop]
  · exact columnAffinity_congr fun v => permuted.mem_iff.symm

/-- A column of a null, a whole number, an infinity and a truth value. -/
private def assorted : List Value := [.null, .number (.ofInt 1), .number (.infinity true), .bool true]

theorem columnAffinity_by_kinds_of_assorted :
    columnAffinity assorted ≠ .text ∧ columnAffinity assorted = .real ∧ assorted.Perm assorted.reverse ∧
      columnAffinity assorted.reverse = .real := by
  obtain ⟨text, other, order, _⟩ := columnAffinity_by_kinds assorted
  have numeric : ∀ v ∈ assorted, IsNumeric v := by simp [assorted, IsNumeric]
  have notText : columnAffinity assorted ≠ .text := fun found =>
    not_callsForText numeric (show .bool true ∈ assorted by decide) (by decide) (text.mp found)
  have real : columnAffinity assorted = .real :=
    (other notText).2.mpr ⟨.number (.infinity true), by decide, by decide, fun integral =>
      absurd integral.1 (by decide)⟩
  have reordered : assorted.Perm assorted.reverse := (List.reverse_perm assorted).symm
  exact ⟨notText, real, reordered, (order _ reordered).trans real⟩

end TableMachine.Export
