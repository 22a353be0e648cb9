import TableMachine.Memo
import TableMachine.Proofs.Numbers
import TableMachine.Value.Equality

/-! # What the key of an argument list says

Two argument lists have one key exactly when they are equal position by position. In a key every argument
tells where it ends: by its kind, or by a length that itself tells where it ends. So a key falls apart into
the parts of the arguments in one way only.
-/

namespace TableMachine

namespace Number

/-- Numbers that are equal agree once the sign of zero is dropped. -/
theorem equals_iff {x y : Number} (first : x.isNaN = false) (second : y.isNaN = false) :
    x.equals y = true ↔ (if x.isZero then zero else x) = if y.isZero then zero else y := by
  have wordX := x.toNat_bits
  have wordY := y.toNat_bits
  have ranks : x.equals y = true ↔ x.rank = y.rank := by simp [equals, first, second]
  rw [ranks]
  unfold rank
  constructor
  · intro same
    by_cases null : x.magnitude = 0
    · have other : y.magnitude = 0 := by
        rw [null] at same
        split at same <;> split at same <;> omega
      rw [if_pos (isZero_iff.mpr null), if_pos (isZero_iff.mpr other)]
    · have other : y.magnitude ≠ 0 := by
        intro other
        rw [other] at same
        split at same <;> split at same <;> omega
      rw [if_neg (mt isZero_iff.mp null), if_neg (mt isZero_iff.mp other)]
      have words : x.bits.toNat = y.bits.toNat := by
        rw [wordX, wordY]
        cases signX : x.isNegative <;> cases signY : y.isNegative <;>
          simp only [signX, signY, Bool.false_eq_true, ↓reduceIte] at same ⊢ <;> omega
      cases x
      cases y
      exact congrArg Number.mk (UInt64.toNat_inj.mp words)
  · intro same
    by_cases null : x.magnitude = 0 <;> by_cases other : y.magnitude = 0
    · simp [null, other]
    · rw [if_pos (isZero_iff.mpr null), if_neg (mt isZero_iff.mp other)] at same
      subst same
      exact absurd (by decide) other
    · rw [if_neg (mt isZero_iff.mp null), if_pos (isZero_iff.mpr other)] at same
      subst same
      exact absurd (by decide) null
    · rw [if_neg (mt isZero_iff.mp null), if_neg (mt isZero_iff.mp other)] at same
      rw [same]

end Number

namespace Memo

variable {a b : Value} {arguments others : List Value} {x y key : Text}

/-! ## Parts that end by themselves -/

theorem length_littleEndian (count n : Nat) : (littleEndian count n).length = count := by
  induction count generalizing n with
  | zero => rfl
  | succ count ih => simp [littleEndian, ih]

theorem littleEndian_inj {count m n : Nat} (hm : m < pow256 count) (hn : n < pow256 count)
    (same : littleEndian count m = littleEndian count n) : m = n := by
  induction count generalizing m n with
  | zero =>
      simp only [Nat.pow_eq, Nat.pow_zero] at hm hn
      omega
  | succ count ih =>
      simp only [littleEndian, List.cons.injEq] at same
      obtain ⟨low, high⟩ := same
      simp only [Nat.pow_eq, Nat.pow_succ] at hm hn
      have rest := ih (m := m / 256) (n := n / 256) (by simp only [Nat.pow_eq]; omega)
        (by simp only [Nat.pow_eq]; omega) high
      have low : m % 256 = n % 256 := by
        simpa using congrArg UInt8.toNat low
      omega

/-- A length that is written before a text can be told from what follows. -/
theorem variableLength_append_inj {m n : Nat}
    (same : variableLength m ++ x = variableLength n ++ y) : m = n ∧ x = y := by
  induction m using Nat.strongRecOn generalizing n with
  | ind m ih =>
      rw [variableLength.eq_def m, variableLength.eq_def n] at same
      by_cases last : m < 128 <;> by_cases last' : n < 128
      · rw [if_pos last, if_pos last'] at same
        obtain ⟨first, rest⟩ := List.cons.inj same
        have first := congrArg UInt8.toNat first
        simp only [Nat.toUInt8, UInt8.toNat_ofNat'] at first
        exact ⟨by omega, rest⟩
      · rw [if_pos last, if_neg last'] at same
        have first := congrArg UInt8.toNat (List.cons.inj same).1
        simp only [Nat.toUInt8, UInt8.toNat_ofNat'] at first
        omega
      · rw [if_neg last, if_pos last'] at same
        have first := congrArg UInt8.toNat (List.cons.inj same).1
        simp only [Nat.toUInt8, UInt8.toNat_ofNat'] at first
        omega
      · rw [if_neg last, if_neg last'] at same
        obtain ⟨first, rest⟩ := List.cons.inj same
        have first := congrArg UInt8.toNat first
        simp only [Nat.toUInt8, UInt8.toNat_ofNat'] at first
        obtain ⟨high, rest⟩ := ih (m / 128) (by omega) rest
        exact ⟨by omega, rest⟩

theorem argumentKey?_cases (keyed : argumentKey? a = some key) :
    key = [0] ∨ (∃ word : Text, word.length = 8 ∧ key = 1 :: word) ∨ (∃ flag, key = [2, flag]) ∨
      ∃ text : Text, key = 3 :: (variableLength text.length ++ text) := by
  cases a with
  | null => exact .inl (Option.some.inj keyed).symm
  | number n =>
      simp only [argumentKey?] at keyed
      split at keyed
      · cases keyed
      · cases keyed
        exact .inr (.inl ⟨_, length_littleEndian _ _, rfl⟩)
  | bool b => exact .inr (.inr (.inl ⟨_, (Option.some.inj keyed).symm⟩))
  | string text => exact .inr (.inr (.inr ⟨text, (Option.some.inj keyed).symm⟩))
  | path | function | native | array | object | table | column => cases keyed

theorem argumentKey?_ne_nil (keyed : argumentKey? a = some key) : key ≠ [] := by
  rcases argumentKey?_cases keyed with rfl | ⟨word, _, rfl⟩ | ⟨flag, rfl⟩ | ⟨text, rfl⟩ <;> simp

/-- The part of one argument can be told from what follows. -/
theorem argumentKey?_append_inj {k l : Text} (first : argumentKey? a = some k)
    (second : argumentKey? b = some l) (same : k ++ x = l ++ y) : k = l ∧ x = y := by
  rcases argumentKey?_cases first with rfl | ⟨word, size, rfl⟩ | ⟨flag, rfl⟩ | ⟨text, rfl⟩ <;>
    rcases argumentKey?_cases second with rfl | ⟨word', size', rfl⟩ | ⟨flag', rfl⟩ | ⟨text', rfl⟩ <;>
    simp at same ⊢
  · exact same
  · exact List.append_inj same (size.trans size'.symm)
  · exact same
  · obtain ⟨length, rest⟩ := variableLength_append_inj same
    obtain ⟨rfl, rfl⟩ := List.append_inj rest length
    exact ⟨rfl, rfl⟩

/-! ## Keys and equality -/

/-- Whether a value can be part of a key: hashable, and no NaN. -/
def Keyable (v : Value) : Prop := v.isHashable = true ∧ ∀ n, v = .number n → n.isNaN = false

theorem argumentKey?_isSome_iff : (argumentKey? a).isSome = true ↔ Keyable a := by
  cases a with
  | number n => simp [argumentKey?, Keyable, Value.isHashable]
  | null | bool | string | path | function | native | array | object | table | column =>
      simp [argumentKey?, Keyable, Value.isHashable]

private theorem numberKey_eq_iff {m n : Number} :
    some ((1 : UInt8) :: littleEndian 8 m.bits.toNat) = some (1 :: littleEndian 8 n.bits.toNat) ↔
      m = n := by
  constructor
  · intro same
    have words := littleEndian_inj m.bits.toNat_lt n.bits.toNat_lt (List.cons.inj (Option.some.inj same)).2
    cases m
    cases n
    exact congrArg Number.mk (UInt64.toNat_inj.mp words)
  · rintro rfl
    rfl

/-- What equals an argument has its part of the key, and nothing else has. -/
theorem argumentKey?_eq_iff (heap : Heap) (keyed : argumentKey? a = some key) :
    argumentKey? b = some key ↔ Value.equal heap a b = true := by
  have deep : Value.equal heap a b =
      Value.equalWithin heap (heap.size * heap.size + 1 + 1) a b := rfl
  rw [deep]
  cases a with
  | null =>
      cases keyed
      cases b <;> simp [argumentKey?, Value.equalWithin]
  | number x =>
      simp only [argumentKey?, Option.ite_none_left_eq_some] at keyed
      obtain ⟨real, keyed⟩ := keyed
      cases keyed
      cases b with
      | number y =>
          cases other : y.isNaN with
          | true => simp [argumentKey?, Value.equalWithin, Number.equals, other]
          | false =>
              simp only [Value.equalWithin, argumentKey?, other]
              rw [Number.equals_iff (Bool.eq_false_iff.mpr real) other]
              exact numberKey_eq_iff.trans eq_comm
      | _ => simp [argumentKey?, Value.equalWithin]
  | bool x =>
      cases keyed
      cases b with
      | bool y => cases x <;> cases y <;> simp [argumentKey?, Value.equalWithin]
      | _ => simp [argumentKey?, Value.equalWithin]
  | string text =>
      cases keyed
      cases b with
      | string other =>
          simp only [argumentKey?, Value.equalWithin, List.cons_append, Option.some.injEq,
            List.cons.injEq, true_and, beq_iff_eq]
          constructor
          · intro same
            exact (variableLength_append_inj same).2.symm
          · rintro rfl
            rfl
      | _ => simp [argumentKey?, Value.equalWithin]
  | path | function | native | array | object | table | column => cases keyed

theorem key?_cons (v : Value) (rest : List Value) :
    key? (v :: rest) = (argumentKey? v).bind fun first => (key? rest).map (first ++ ·) := by
  unfold key?
  rw [List.mapM_cons]
  cases argumentKey? v with
  | none => rfl
  | some first =>
      cases rest.mapM argumentKey? with
      | none => rfl
      | some others => simp [Text.concat]

theorem key?_isSome_iff : (key? arguments).isSome = true ↔ ∀ v ∈ arguments, Keyable v := by
  induction arguments with
  | nil => simp [key?]
  | cons v rest ih =>
      rw [key?_cons, List.forall_mem_cons, ← ih, ← argumentKey?_isSome_iff]
      cases argumentKey? v <;> cases key? rest <;> simp

/-- Two argument lists have one key exactly when they are equal position by position. -/
theorem key?_eq_iff (heap : Heap) (keyed : key? arguments = some key) :
    key? others = some key ↔ Value.pairwise (Value.equal heap) arguments others = true := by
  induction arguments generalizing others key with
  | nil =>
      cases keyed
      cases others with
      | nil => simp [key?, Value.pairwise, Text.concat]
      | cons w others =>
          simp only [key?_cons, Option.bind_eq_some_iff, Option.map_eq_some_iff, Value.pairwise,
            Bool.false_eq_true, iff_false]
          rintro ⟨first, firstKey, more, _, empty⟩
          exact argumentKey?_ne_nil firstKey (List.append_eq_nil_iff.mp empty).1
  | cons v rest ih =>
      rw [key?_cons] at keyed
      simp only [Option.bind_eq_some_iff, Option.map_eq_some_iff] at keyed
      obtain ⟨first, firstKey, more, restKey, rfl⟩ := keyed
      cases others with
      | nil =>
          simp only [key?, List.mapM_nil, Value.pairwise, Bool.false_eq_true, iff_false]
          intro empty
          have empty : [] = first ++ more := Option.some.inj empty
          exact argumentKey?_ne_nil firstKey (List.append_eq_nil_iff.mp empty.symm).1
      | cons w others =>
          rw [key?_cons]
          simp only [Option.bind_eq_some_iff, Option.map_eq_some_iff, Value.pairwise,
            Bool.and_eq_true, ← ih restKey, ← argumentKey?_eq_iff heap firstKey]
          constructor
          · rintro ⟨first', firstKey', more', restKey', same⟩
            obtain ⟨rfl, rfl⟩ := argumentKey?_append_inj firstKey' firstKey same
            exact ⟨firstKey', restKey'⟩
          · rintro ⟨firstKey', restKey'⟩
            exact ⟨first, firstKey', more, restKey', rfl⟩

end Memo

end TableMachine
