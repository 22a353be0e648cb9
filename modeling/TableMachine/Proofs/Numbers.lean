import Mathlib.Algebra.Ring.Nat
import TableMachine.Number.Narrow

/-! # Words of numbers

A word is its sign and its magnitude, and a finite number is its sign, its significand and its scale. From
the second fact it follows that a number packed into a narrower format is unpacked again: both formats
write one integer times a power of two, and rounding changes nothing where every bit has room. It also tells the
words of natural numbers: their leading bit gives the exponent, and 53 bits from there on are kept.
-/

namespace TableMachine

theorem pow2_eq (n : Nat) : pow2 n = 2 ^ n := rfl

namespace Number

variable {x : Number} {k shift place word : Nat} {unit : Int}

/-! ## Words -/

theorem toNat_bits (x : Number) :
    x.bits.toNat = x.magnitude + if x.isNegative then pow2 63 else 0 := by
  have bound := x.bits.toNat_lt
  simp only [magnitude, isNegative, decide_eq_true_eq, Nat.pow_eq]
  split <;> omega

theorem isZero_iff : x.isZero = true ↔ x.magnitude = 0 := by
  simp [isZero]

theorem ofMagnitude_magnitude (x : Number) : ofMagnitude x.isNegative x.magnitude = x := by
  have word := x.toNat_bits
  have bound := x.bits.toNat_lt
  have small : x.magnitude < pow2 63 := Nat.mod_lt _ (by decide)
  cases x
  apply congrArg Number.mk
  apply UInt64.toNat_inj.mp
  rw [Nat.mod_eq_of_lt small, UInt64.toNat_ofNat', ← word, Nat.mod_eq_of_lt bound]

/-! ## Significand and scale -/

theorem magnitude_eq_of_scale (x : Number) :
    (x.scale + 1074).toNat * 2 ^ 52 + x.significand = x.magnitude := by
  have parts : 2 ^ 52 * x.exponentField + x.fraction = x.magnitude := Nat.div_add_mod _ _
  unfold scale significand
  rw [pow2_eq]
  split <;> omega

theorem magnitude_eq_zero (zero_ : x.significand = 0) : x.magnitude = 0 := by
  have parts : 2 ^ 52 * x.exponentField + x.fraction = x.magnitude := Nat.div_add_mod _ _
  unfold significand at zero_
  rw [pow2_eq] at zero_
  split at zero_ <;> omega

/-- The scale of a number is the unit in its last place. -/
theorem scale_eq_unit (nonzero : x.significand ≠ 0) :
    max (x.scale + Nat.log2 x.significand - 52) (-1074) = x.scale := by
  have small : x.fraction < 2 ^ 52 := Nat.mod_lt _ (by decide)
  by_cases subnormal : x.exponentField = 0
  · have low : x.significand < 2 ^ 52 := by
      unfold significand
      rwa [if_pos subnormal]
    have log := (Nat.log2_lt nonzero).mpr low
    unfold scale
    omega
  · have normal : 2 ^ 52 ≤ x.significand ∧ x.significand < 2 ^ (52 + 1) := by
      unfold significand
      rw [if_neg subnormal, pow2_eq]
      omega
    have log := (Nat.log2_eq_iff nonzero).mpr normal
    rw [log]
    unfold scale
    omega

private theorem log2_mul_pow (nonzero : k ≠ 0) : Nat.log2 (k * 2 ^ shift) = Nat.log2 k + shift := by
  have positive : 0 < 2 ^ shift := Nat.two_pow_pos shift
  rw [Nat.log2_eq_iff (Nat.mul_ne_zero nonzero (by omega)), Nat.pow_add,
    show Nat.log2 k + shift + 1 = (Nat.log2 k + 1) + shift by omega, Nat.pow_add]
  exact ⟨Nat.mul_le_mul_right _ (Nat.log2_self_le nonzero),
    Nat.mul_lt_mul_of_pos_right Nat.lt_log2_self positive⟩

private theorem roundShift_mul_pow (k shift : Nat) : roundShift (k * 2 ^ shift) shift = k := by
  have positive : 0 < 2 ^ shift := Nat.two_pow_pos shift
  unfold roundShift
  simp only [Nat.pow_eq, Nat.mul_div_cancel _ positive, Nat.mul_mod_left, Nat.mul_zero, if_pos positive]

/-- `k * 2 ^ unit` is the absolute value of the number. -/
def Measures (x : Number) (k : Nat) (unit : Int) : Prop :=
  (unit ≤ x.scale ∧ k = x.significand * 2 ^ (x.scale - unit).toNat) ∨
    (x.scale < unit ∧ x.significand = k * 2 ^ (unit - x.scale).toNat)

/-- A finite number has no fractional part where an integer is its absolute value. -/
theorem isWhole_iff : x.isWhole = true ↔ ∃ k, x.Measures k 0 := by
  simp only [isWhole, Bool.or_eq_true, decide_eq_true_eq, beq_iff_eq, pow2_eq]
  constructor
  · rintro (large | divides)
    · exact ⟨_, .inl ⟨large, rfl⟩⟩
    · by_cases large : 0 ≤ x.scale
      · exact ⟨_, .inl ⟨large, rfl⟩⟩
      · obtain ⟨k, product⟩ := Nat.dvd_of_mod_eq_zero divides
        refine ⟨k, .inr ⟨Int.not_le.mp large, ?_⟩⟩
        rw [Int.zero_sub, product, Nat.mul_comm]
  · rintro ⟨k, ⟨large, _⟩ | ⟨_, product⟩⟩
    · exact .inl large
    · rw [product, Int.zero_sub]
      exact .inr (Nat.mul_mod_left _ _)

theorem isInteger_iff : x.isInteger = true ↔ x.isFinite = true ∧ ∃ k, x.Measures k 0 := by
  rw [isInteger, Bool.and_eq_true, isWhole_iff]

theorem Measures.ne_zero (measures : x.Measures k unit) (nonzero : x.significand ≠ 0) : k ≠ 0 := by
  rcases measures with ⟨_, rfl⟩ | ⟨_, same⟩
  · exact Nat.mul_ne_zero nonzero (Nat.pos_iff_ne_zero.mp (Nat.two_pow_pos _))
  · rintro rfl
    rw [Nat.zero_mul] at same
    exact nonzero same

theorem Measures.log2 (measures : x.Measures k unit) (nonzero : x.significand ≠ 0) :
    unit + Nat.log2 k = x.scale + Nat.log2 x.significand := by
  have positive := measures.ne_zero nonzero
  rcases measures with ⟨below, rfl⟩ | ⟨above, same⟩
  · rw [log2_mul_pow nonzero]
    omega
  · rw [same, log2_mul_pow positive]
    omega

/-- A finite number is the one nearest to its own value. -/
theorem ofScaled_of_measures (finite : x.isFinite = true) (nonzero : x.significand ≠ 0)
    (measures : x.Measures k unit) : ofScaled x.isNegative k unit = x := by
  have size : x.magnitude < infinityMagnitude := by simpa [isFinite] using finite
  have last : max (unit + Nat.log2 k - 52) (-1074) = x.scale := by
    rw [measures.log2 nonzero]
    exact scale_eq_unit nonzero
  unfold ofScaled
  rw [if_neg (measures.ne_zero nonzero)]
  simp only [last]
  have kept : (if x.scale ≤ unit then k * pow2 (unit - x.scale).toNat
      else roundShift k (x.scale - unit).toNat) = x.significand := by
    rcases measures with ⟨below, same⟩ | ⟨above, same⟩
    · split
      · have level : unit = x.scale := by omega
        subst level
        simpa using same
      · rw [same, roundShift_mul_pow]
    · rw [if_pos (by omega), same, pow2_eq]
  rw [kept, pow2_eq, magnitude_eq_of_scale, Nat.min_eq_left (Nat.le_of_lt size),
    ofMagnitude_magnitude]

/-! ## Natural numbers -/

section Naturals

variable {n m : Nat}

theorem magnitude_ofMagnitude (small : m < 2 ^ 63) : (ofMagnitude false m).magnitude = m := by
  simp only [magnitude, ofMagnitude, Nat.pow_eq, Bool.false_eq_true, if_false, Nat.add_zero,
    UInt64.toNat_ofNat']
  omega

theorem isNegative_ofMagnitude (m : Nat) : (ofMagnitude false m).isNegative = false := by
  simp only [isNegative, ofMagnitude, Nat.pow_eq, Bool.false_eq_true, if_false, Nat.add_zero,
    UInt64.toNat_ofNat', decide_eq_false_iff_not]
  omega

/-- Rounding gives one of the two integers around the quotient. -/
theorem roundShift_bounds (m shift : Nat) :
    m / 2 ^ shift ≤ roundShift m shift ∧ roundShift m shift ≤ m / 2 ^ shift + 1 := by
  unfold roundShift
  simp only [Nat.pow_eq]
  split
  · omega
  · split
    · omega
    · omega

/-- The leading bit of a number is at the place its logarithm tells, so it can be moved to bit 52. -/
theorem bounds_of_log2 (nonzero : n ≠ 0) (low : Nat.log2 n ≤ 52) :
    2 ^ 52 ≤ n * 2 ^ (52 - Nat.log2 n) ∧ n * 2 ^ (52 - Nat.log2 n) < 2 ^ 53 := by
  obtain ⟨least, greatest⟩ := (Nat.log2_eq_iff nonzero).mp rfl
  have positive : 0 < 2 ^ (52 - Nat.log2 n) := Nat.two_pow_pos _
  have lower := Nat.mul_le_mul_right (2 ^ (52 - Nat.log2 n)) least
  have upper := Nat.mul_lt_mul_of_pos_right greatest positive
  rw [← Nat.pow_add] at lower upper
  rw [show Nat.log2 n + (52 - Nat.log2 n) = 52 by omega] at lower
  rw [show Nat.log2 n + 1 + (52 - Nat.log2 n) = 53 by omega] at upper
  exact ⟨lower, upper⟩

/-- A longer number keeps the 53 bits from its leading one on, before it is rounded. -/
theorem div_bounds_of_log2 (nonzero : n ≠ 0) (high : 52 ≤ Nat.log2 n) :
    2 ^ 52 ≤ n / 2 ^ (Nat.log2 n - 52) ∧ n / 2 ^ (Nat.log2 n - 52) < 2 ^ 53 := by
  obtain ⟨least, greatest⟩ := (Nat.log2_eq_iff nonzero).mp rfl
  have positive : 0 < 2 ^ (Nat.log2 n - 52) := Nat.two_pow_pos _
  constructor
  · rw [Nat.le_div_iff_mul_le positive, ← Nat.pow_add]
    rwa [show 52 + (Nat.log2 n - 52) = Nat.log2 n by omega]
  · rw [Nat.div_lt_iff_lt_mul positive, ← Nat.pow_add]
    rwa [show 53 + (Nat.log2 n - 52) = Nat.log2 n + 1 by omega]

/-- The word of a natural number: the exponent of its leading bit, and 53 bits from there on. -/
theorem exists_ofNat (nonzero : n ≠ 0) : ∃ kept, 2 ^ 52 ≤ kept ∧ kept ≤ 2 ^ 53 ∧
    (Nat.log2 n ≤ 52 → kept = n * 2 ^ (52 - Nat.log2 n)) ∧
    ofNat n = ofMagnitude false (min ((Nat.log2 n + 1022) * 2 ^ 52 + kept) infinityMagnitude) := by
  have unit : max (0 + (Nat.log2 n : Int) - 52) (-1074) = (Nat.log2 n : Int) - 52 := by omega
  have place : ((Nat.log2 n : Int) - 52 + 1074).toNat = Nat.log2 n + 1022 := by omega
  unfold ofNat ofScaled
  rw [if_neg nonzero]
  simp only [unit, place, Nat.pow_eq]
  by_cases low : Nat.log2 n ≤ 52
  · obtain ⟨lower, upper⟩ := bounds_of_log2 nonzero low
    refine ⟨n * 2 ^ (52 - Nat.log2 n), lower, Nat.le_of_lt upper, fun _ => rfl, ?_⟩
    rw [if_pos (by omega), show ((0 : Int) - ((Nat.log2 n : Int) - 52)).toNat = 52 - Nat.log2 n by omega]
  · have high : 52 ≤ Nat.log2 n := by omega
    obtain ⟨lower, upper⟩ := div_bounds_of_log2 nonzero high
    obtain ⟨below, above⟩ := roundShift_bounds n (Nat.log2 n - 52)
    refine ⟨roundShift n (Nat.log2 n - 52), by omega, by omega, fun low' => absurd low' low, ?_⟩
    rw [if_neg (by omega), show ((Nat.log2 n : Int) - 52 - 0).toNat = Nat.log2 n - 52 by omega]

/-- The integers that fit into the significand are their own integer parts. -/
theorem wholePart_ofNat (small : n < 2 ^ 53) : (ofNat n).wholePart = n := by
  by_cases zero_ : n = 0
  · subst zero_
    have blank : (ofNat 0).significand = 0 := rfl
    unfold wholePart
    rw [blank]
    simp
  · obtain ⟨kept, lower, _, exact_, word⟩ := exists_ofNat zero_
    have log : Nat.log2 n ≤ 52 := Nat.le_of_lt_succ ((Nat.log2_lt zero_).mpr small)
    have upper : kept < 2 ^ 53 := exact_ log ▸ (bounds_of_log2 zero_ log).2
    have size : (ofNat n).magnitude = (Nat.log2 n + 1022) * 2 ^ 52 + kept := by
      rw [word, Nat.min_eq_left (by simp only [infinityMagnitude, Nat.pow_eq]; omega),
        magnitude_ofMagnitude (by omega)]
    have exponent : (ofNat n).exponentField = Nat.log2 n + 1023 := by
      rw [exponentField, size, pow2_eq]
      omega
    have scale_ : (ofNat n).scale = (Nat.log2 n : Int) - 52 := by
      rw [scale, exponent]
      omega
    have significand_ : (ofNat n).significand = n * 2 ^ (52 - Nat.log2 n) := by
      rw [significand, if_neg (by omega), fraction, size, pow2_eq, ← exact_ log]
      omega
    rw [wholePart, scale_, significand_]
    split
    · rw [show 52 - Nat.log2 n = 0 by omega, show ((Nat.log2 n : Int) - 52).toNat = 0 by omega]
      simp
    · rw [show (-((Nat.log2 n : Int) - 52)).toNat = 52 - Nat.log2 n by omega, pow2_eq]
      exact Nat.mul_div_cancel n (Nat.two_pow_pos _)

theorem magnitude_ofNat_le (n : Nat) : (ofNat n).magnitude ≤ infinityMagnitude := by
  by_cases zero_ : n = 0
  · subst zero_
    decide
  · obtain ⟨kept, _, _, _, word⟩ := exists_ofNat zero_
    rw [word, magnitude_ofMagnitude]
    · exact Nat.min_le_right _ _
    · exact Nat.lt_of_le_of_lt (Nat.min_le_right _ _) (by decide)

theorem isNegative_ofNat (n : Nat) : (ofNat n).isNegative = false := by
  by_cases zero_ : n = 0
  · subst zero_
    rfl
  · obtain ⟨kept, _, _, _, word⟩ := exists_ofNat zero_
    rw [word, isNegative_ofMagnitude]

theorem isNaN_ofNat (n : Nat) : (ofNat n).isNaN = false :=
  decide_eq_false (Nat.not_lt.mpr (magnitude_ofNat_le n))

theorem rank_ofNat (n : Nat) : (ofNat n).rank = (ofNat n).magnitude := by
  rw [rank, isNegative_ofNat]
  rfl

theorem ofNat_less_ofNat_iff (n m : Nat) :
    (ofNat n).less (ofNat m) = true ↔ (ofNat n).magnitude < (ofNat m).magnitude := by
  simp only [less, isNaN_ofNat, rank_ofNat, Bool.not_false, Bool.true_and, decide_eq_true_eq, Int.ofNat_lt]

theorem ofNat_less_zero (n : Nat) : (ofNat n).less .zero = false := by
  have none_ : rank .zero = 0 := by decide
  simp only [less, rank_ofNat, none_, Bool.and_eq_false_iff, decide_eq_false_iff_not]
  omega

end Naturals

/-! ## Narrower formats -/

namespace Format

variable {f : Format}

theorem infinity_lt_signBit (f : Format) : f.infinity < f.signBit := by
  have positive : 0 < 2 ^ f.fractionBits := Nat.two_pow_pos _
  have room : 0 < 2 ^ f.exponentBits := Nat.two_pow_pos _
  unfold infinity signBit
  rw [pow2_eq, pow2_eq, pow2_eq, Nat.add_comm f.fractionBits, Nat.pow_add]
  exact Nat.mul_lt_mul_of_pos_right (by omega) positive

/-- A word with its leading bit in the exponent field is read as what it was made of. -/
theorem unpack_word (f : Format) (negative : Bool) (small : k < 2 * 2 ^ f.fractionBits)
    (leading : 0 < place → 2 ^ f.fractionBits ≤ k)
    (finite : place * 2 ^ f.fractionBits + k < f.infinity) :
    f.unpack ((if negative then f.signBit else 0) + place * pow2 f.fractionBits + k) =
      ofScaled negative k (f.leastScale + place) := by
  have positive : 0 < 2 ^ f.fractionBits := Nat.two_pow_pos _
  have below := f.infinity_lt_signBit
  have sign : (f.signBit ≤ (if negative then f.signBit else 0) + place * pow2 f.fractionBits + k) ↔
      negative = true := by
    rw [pow2_eq]
    cases negative with
    | false =>
        simp only [Bool.false_eq_true, if_false, iff_false]
        omega
    | true =>
        simp only [if_true, iff_true]
        omega
  have body : ((if negative then f.signBit else 0) + place * pow2 f.fractionBits + k) % f.signBit =
      place * 2 ^ f.fractionBits + k := by
    rw [pow2_eq, Nat.add_assoc]
    cases negative with
    | false =>
        simp only [Bool.false_eq_true, if_false, Nat.zero_add]
        exact Nat.mod_eq_of_lt (by omega)
    | true =>
        simp only [if_true, Nat.add_mod_left]
        exact Nat.mod_eq_of_lt (by omega)
  unfold unpack
  simp only [body, sign, Bool.decide_eq_true]
  rw [if_neg (by omega), if_neg (by omega)]
  by_cases low : k < 2 ^ f.fractionBits
  · have bottom : place = 0 := by
      rcases Nat.eq_zero_or_pos place with bottom | higher
      · exact bottom
      · have high := leading higher
        omega
    subst bottom
    simp only [Nat.zero_mul, Nat.zero_add, Nat.pow_eq, Nat.div_eq_of_lt low, Nat.mod_eq_of_lt low,
      if_true]
    congr 1
    omega
  · obtain ⟨rest, rfl⟩ := Nat.exists_eq_add_of_le (Nat.le_of_not_lt low)
    have split : place * 2 ^ f.fractionBits + (2 ^ f.fractionBits + rest) =
        rest + 2 ^ f.fractionBits * (place + 1) := by
      rw [Nat.mul_add, Nat.mul_comm]
      omega
    have inside : rest < 2 ^ f.fractionBits := by omega
    simp only [split, Nat.pow_eq, Nat.add_mul_div_left _ _ positive, Nat.add_mul_mod_self_left,
      Nat.div_eq_of_lt inside, Nat.mod_eq_of_lt inside, Nat.zero_add, Nat.add_eq_zero_iff,
      Nat.one_ne_zero, and_false, if_false]
    rw [Nat.add_comm rest]
    congr 1
    omega

/-- What a format has room for: the number is a multiple of the unit, and neither leaves the range. -/
theorem unpack_of_measures (wide : 2 ≤ f.exponentBits) (finite : x.isFinite = true)
    (nonzero : x.significand ≠ 0) (top : x.scale + Nat.log2 x.significand ≤ f.maxExponent)
    (unit_eq : unit = max (x.scale + Nat.log2 x.significand - f.fractionBits) f.leastScale)
    (measures : x.Measures k unit) :
    f.unpack ((if x.isNegative then f.signBit else 0) +
        (unit - f.leastScale).toNat * pow2 f.fractionBits + k) = x ∧
      (unit - f.leastScale).toNat * 2 ^ f.fractionBits + k < f.infinity := by
  have log := measures.log2 nonzero
  have bounds := (Nat.log2_eq_iff (measures.ne_zero nonzero)).mp rfl
  have small : k < 2 * 2 ^ f.fractionBits := by
    have power : 2 ^ (Nat.log2 k + 1) ≤ 2 ^ (f.fractionBits + 1) := Nat.pow_le_pow_right (by omega) (by omega)
    rw [Nat.pow_succ 2 f.fractionBits] at power
    omega
  have leading : 0 < (unit - f.leastScale).toNat → 2 ^ f.fractionBits ≤ k := by
    intro higher
    have exact_ : Nat.log2 k = f.fractionBits := by omega
    rw [← exact_]
    exact bounds.1
  have inRange : (unit - f.leastScale).toNat * 2 ^ f.fractionBits + k < f.infinity := by
    have exponents : 2 ^ f.exponentBits = 2 * 2 ^ (f.exponentBits - 1) := by
      rw [← Nat.pow_succ', Nat.succ_eq_add_one, Nat.sub_add_cancel (by omega)]
    have two : 2 ^ 1 ≤ 2 ^ (f.exponentBits - 1) := Nat.pow_le_pow_right (by omega) (by omega)
    have place : (unit - f.leastScale).toNat + 2 ≤ 2 ^ f.exponentBits - 1 := by
      unfold maxExponent at top
      unfold leastScale at unit_eq ⊢
      rw [pow2_eq] at *
      omega
    have product := Nat.mul_le_mul_right (2 ^ f.fractionBits) place
    rw [Nat.add_mul] at product
    unfold infinity
    rw [pow2_eq, pow2_eq]
    omega
  refine ⟨?_, inRange⟩
  rw [unpack_word f x.isNegative small leading inRange]
  have back : f.leastScale + ((unit - f.leastScale).toNat : Int) = unit := by omega
  rw [back]
  exact ofScaled_of_measures finite nonzero measures

/-- A number that a format holds is read back from it. -/
theorem unpack_pack? (wide : 2 ≤ f.exponentBits) (finite : x.isFinite = true)
    (packed : f.pack? x = some word) : f.unpack word = x ∧ word < 2 * f.signBit := by
  have sign : (if x.isNegative then f.signBit else 0) ≤ f.signBit := by split <;> omega
  have below := f.infinity_lt_signBit
  unfold pack? at packed
  simp only at packed
  split at packed
  · rename_i zero_
    cases packed
    have positive : 0 < f.infinity := by
      have powers : 2 ^ 2 ≤ 2 ^ f.exponentBits := Nat.pow_le_pow_right (by omega) wide
      exact Nat.mul_pos (by rw [pow2_eq]; omega) (Nat.two_pow_pos _)
    have read : f.unpack ((if x.isNegative then f.signBit else 0) + 0 * pow2 f.fractionBits + 0) = _ :=
      unpack_word f x.isNegative (Nat.mul_pos (by omega) (Nat.two_pow_pos _)) (fun high => by omega)
        (by simpa using positive)
    rw [Nat.zero_mul, Nat.add_zero] at read
    refine ⟨?_, by omega⟩
    rw [read, ofScaled, if_pos rfl, ← magnitude_eq_zero zero_, ofMagnitude_magnitude]
  · rename_i nonzero
    split at packed
    · cases packed
    · rename_i top
      have top := Int.not_lt.mp top
      simp only [pow2_eq] at packed
      generalize unit_eq : max (x.scale + Nat.log2 x.significand - f.fractionBits) f.leastScale = unit
        at packed
      split at packed
      · rename_i fine
        cases packed
        have read := unpack_of_measures wide finite nonzero top unit_eq.symm (.inl ⟨fine, rfl⟩)
        exact ⟨read.1, by omega⟩
      · rename_i coarse
        split at packed
        · rename_i multiple
          cases packed
          have whole := (Nat.div_mul_cancel (Nat.dvd_of_mod_eq_zero multiple)).symm
          have read := unpack_of_measures wide finite nonzero top unit_eq.symm
            (.inr ⟨Int.not_le.mp coarse, whole⟩)
          exact ⟨read.1, by omega⟩
        · cases packed

end Format

end Number

end TableMachine
