import Mathlib.Algebra.Order.Ring.Nat
import Mathlib.Data.Nat.Log
import Mathlib.Tactic.Ring
import TreeTemplate.Number.Shortest

/-!
# Rounding

A quotient is rounded by its value alone, however it is written as a fraction, and a number is its own
rounding. So a decimal is read as the same number with zeros moved between its coefficient and its
exponent, and the decimal that is chosen for a number, be it a short one or the exact one, is read as
that number.
-/
set_option autoImplicit false

namespace TreeTemplate

theorem roundHalfEven_scaled (numerator denominator : Nat) {factor : Nat} (positive : 0 < factor) :
    roundHalfEven (numerator * factor) (denominator * factor) =
      roundHalfEven numerator denominator := by
  have doubled : 2 * (numerator % denominator * factor) =
      2 * (numerator % denominator) * factor := (Nat.mul_assoc ..).symm
  simp only [roundHalfEven, Nat.mul_div_mul_right _ _ positive, Nat.mul_mod_mul_right, doubled,
    Nat.mul_lt_mul_right positive, Nat.mul_left_inj positive.ne']

theorem roundHalfEven_multiple (quotient : Nat) {denominator : Nat} (positive : 0 < denominator) :
    roundHalfEven (quotient * denominator) denominator = quotient := by
  have exact : quotient * denominator % denominator = 0 := Nat.mul_mod_left ..
  simp [roundHalfEven, exact, Nat.mul_div_cancel _ positive, positive.ne]

namespace Number

theorem ofQuotient_scaled (negative : Bool) (numerator denominator : Nat) {factor : Nat}
    (positive : 0 < factor) :
    ofQuotient negative (numerator * factor) (denominator * factor) =
      ofQuotient negative numerator denominator := by
  have moved (scale : Nat) : denominator * factor * 2 ^ scale =
      denominator * 2 ^ scale * factor := Nat.mul_right_comm ..
  simp only [ofQuotient, Nat.pow_eq, Nat.mul_div_mul_right _ _ positive, moved,
    roundHalfEven_scaled _ _ positive]

theorem log2_scaled {value : Nat} (filled : value ≠ 0) (scale : Nat) :
    (value * 2 ^ scale).log2 = value.log2 + scale := by
  have unit : 0 < 2 ^ scale := Nat.pow_pos (by decide)
  refine (Nat.log2_eq_iff (Nat.mul_ne_zero filled unit.ne')).mpr ⟨?_, ?_⟩
  · rw [Nat.pow_add]
    exact Nat.mul_le_mul_right _ (Nat.log2_self_le filled)
  · rw [Nat.add_right_comm, Nat.pow_add]
    exact Nat.mul_lt_mul_of_pos_right Nat.lt_log2_self unit

theorem grainsInOne_eq : grainsInOne = 2 ^ 1074 := by
  decide +kernel

theorem grainsInOne_pos : 0 < grainsInOne := by
  decide +kernel

theorem scale_of_no_significand {number : Finite} (nothing : number.significand = 0) :
    number.scale = 0 := by
  refine number.canonical.2.2.resolve_right ?_
  rw [nothing]
  decide

theorem log2_grains (number : Finite) : number.grains.log2 - 52 = number.scale := by
  have bounded : number.significand < 2 ^ 53 := number.canonical.1
  rw [Finite.grains, Nat.pow_eq]
  by_cases nothing : number.significand = 0
  · simp [nothing, scale_of_no_significand nothing]
  · have short := (Nat.log2_lt nothing).mpr bounded
    rw [log2_scaled nothing]
    rcases number.canonical.2.2 with lowest | full
    · omega
    · have long : 52 ≤ number.significand.log2 := (Nat.le_log2 nothing).mpr full
      omega

/-- A number is its own rounding. -/
theorem ofQuotient_grains (number : Finite) :
    ofQuotient number.negative number.grains 1 = .finite number := by
  have short : number.significand ≠ 2 ^ 53 := number.canonical.1.ne
  have exact : roundHalfEven number.grains (2 ^ number.scale) = number.significand :=
    roundHalfEven_multiple _ (Nat.pow_pos (by decide))
  rw [ofQuotient, Nat.div_one, Nat.one_mul, log2_grains]
  simp only [Nat.pow_eq, exact, if_neg short, ofParts, dif_pos number.canonical]

theorem ofDecimal_zero (negative : Bool) (exponent : Int) :
    ofDecimal negative 0 exponent = .finite (Finite.zero negative) :=
  if_pos rfl

/-- The exponents for which a decimal is read as a quotient. -/
structure IsWithin (coefficient : Nat) (exponent : Int) : Prop where
  filled : coefficient ≠ 0
  high : exponent ≤ 310
  low : -1075 < (coefficient.log2 : Int) + 1 + 3 * exponent

theorem isWithin_of_ofDecimal {negative : Bool} {coefficient : Nat} {exponent : Int}
    {number : Finite} (reads : ofDecimal negative coefficient exponent = .finite number)
    (visible : number.isZero = false) : IsWithin coefficient exponent := by
  have notZero : ofDecimal negative coefficient exponent ≠ .finite (Finite.zero negative) := by
    intro isZero
    rw [isZero] at reads
    rw [← Number.finite.inj reads] at visible
    cases visible
  unfold ofDecimal at reads notZero
  by_cases nothing : coefficient = 0
  · exact absurd (if_pos nothing) notZero
  · rw [if_neg nothing] at reads notZero
    by_cases large : 310 < exponent
    · rw [if_pos large] at reads
      cases reads
    · rw [if_neg large] at notZero
      by_cases small : (coefficient.log2 : Int) + 1 + 3 * exponent ≤ -1075
      · exact absurd (if_pos small) notZero
      · exact ⟨nothing, by omega, by omega⟩

section Within
variable {coefficient : Nat} {exponent : Int} (within : IsWithin coefficient exponent)
include within

theorem IsWithin.zeros (count : Nat) :
    IsWithin (coefficient * 10 ^ count) (exponent - count) := by
  have filled : coefficient * 10 ^ count ≠ 0 :=
    Nat.mul_ne_zero within.filled (Nat.pow_pos (by decide)).ne'
  refine ⟨filled, by have := within.high; omega, ?_⟩
  have eight : (2 ^ 3) ^ count ≤ 10 ^ count := Nat.pow_le_pow_left (by decide) count
  have grown : coefficient.log2 + 3 * count ≤ (coefficient * 10 ^ count).log2 := by
    rw [Nat.le_log2 filled, Nat.pow_add, Nat.pow_mul]
    exact Nat.mul_le_mul (Nat.log2_self_le within.filled) eight
  have := within.low
  omega

/-- The quotient that a decimal is read as can be written with more places than are needed. -/
theorem IsWithin.ofDecimal_eq (negative : Bool) {places : Nat} (enough : 0 ≤ exponent + places) :
    ofDecimal negative coefficient exponent =
      ofQuotient negative (coefficient * 10 ^ (exponent + places).toNat * grainsInOne)
        (10 ^ places) := by
  have ⟨filled, high, low⟩ := within
  have ten (count : Nat) : 0 < 10 ^ count := Nat.pow_pos (by decide)
  rw [ofDecimal, if_neg filled, if_neg (by omega), if_neg (by omega)]
  split
  · have shift : 10 ^ (exponent + places).toNat = 10 ^ exponent.toNat * 10 ^ places := by
      rw [← Nat.pow_add]
      exact congrArg (10 ^ ·) (by omega)
    rw [← ofQuotient_scaled negative _ _ (ten places), Nat.pow_eq, shift, Nat.one_mul,
      Nat.mul_right_comm _ grainsInOne, Nat.mul_assoc coefficient]
  · have shift : 10 ^ places = 10 ^ (-exponent).toNat * 10 ^ (exponent + places).toNat := by
      rw [← Nat.pow_add]
      exact congrArg (10 ^ ·) (by omega)
    rw [← ofQuotient_scaled negative _ _ (ten (exponent + places).toNat), Nat.pow_eq, shift,
      Nat.mul_right_comm _ grainsInOne]

end Within

/-- Zeros can be moved from the exponent of a decimal to the end of its coefficient. -/
theorem ofDecimal_zeros {negative : Bool} {coefficient : Nat} {exponent : Int} {number : Finite}
    (reads : ofDecimal negative coefficient exponent = .finite number)
    (visible : number.isZero = false) (count : Nat) :
    ofDecimal negative (coefficient * 10 ^ count) (exponent - count) = .finite number := by
  have within := isWithin_of_ofDecimal reads visible
  have enough : 0 ≤ exponent + (exponent.natAbs + count : Nat) := by omega
  have enoughBehind : 0 ≤ exponent - count + (exponent.natAbs + count : Nat) := by omega
  have shift : 10 ^ (exponent + (exponent.natAbs + count : Nat)).toNat = 10 ^ count *
      10 ^ (exponent - count + (exponent.natAbs + count : Nat)).toNat := by
    rw [← Nat.pow_add]
    exact congrArg (10 ^ ·) (by omega)
  rw [← reads, within.ofDecimal_eq negative enough, (within.zeros count).ofDecimal_eq _ enoughBehind,
    shift, Nat.mul_assoc coefficient]

theorem two_mul_le_log2 {value : Nat} (filled : value ≠ 0) (count : Nat) :
    2 * count ≤ (value * 5 ^ count).log2 := by
  have nonzero : value * 5 ^ count ≠ 0 := Nat.mul_ne_zero filled (Nat.pow_pos (by decide)).ne'
  rw [Nat.le_log2 nonzero, Nat.pow_mul]
  calc (2 ^ 2) ^ count ≤ 5 ^ count := Nat.pow_le_pow_left (by decide) count
    _ ≤ value * 5 ^ count := Nat.le_mul_of_pos_left _ (Nat.pos_of_ne_zero filled)

/-- A quotient by a power of two is a decimal with as many places. -/
theorem ofDecimal_halves (negative : Bool) {value places : Nat} (filled : value ≠ 0)
    (visible : places ≤ 1074) :
    ofDecimal negative (value * 5 ^ places) (-places) =
      ofQuotient negative (value * grainsInOne) (2 ^ places) := by
  have long := two_mul_le_log2 filled places
  have positive : 0 < 5 ^ places := Nat.pow_pos (by decide)
  have within : IsWithin (value * 5 ^ places) (-places) :=
    ⟨Nat.mul_ne_zero filled positive.ne', by omega, by omega⟩
  have whole : (-places + places : Int).toNat = 0 := by omega
  have ten : 10 ^ places = 2 ^ places * 5 ^ places := Nat.mul_pow 2 5 places
  rw [within.ofDecimal_eq negative (by omega : (0 : Int) ≤ -places + places), whole, ten,
    Nat.pow_zero, Nat.mul_one, Nat.mul_right_comm, ofQuotient_scaled _ _ _ positive]

end Number

/-! ## Shortest decimals -/

namespace Finite
variable {number : Finite}

/-- All digits of a number are read as the number. -/
theorem ofDecimal_exactDecimal (visible : number.isZero = false) :
    Number.ofDecimal number.negative number.exactDecimal.coefficient number.exactDecimal.exponent =
      .finite number := by
  have significant : number.significand ≠ 0 := of_decide_eq_false visible
  have filled : number.grains ≠ 0 := Nat.mul_ne_zero significant (Nat.pow_pos (by decide)).ne'
  have reads := Number.ofDecimal_halves number.negative filled (by decide : 1074 ≤ 1074)
  have scaled := Number.ofQuotient_scaled number.negative number.grains 1 Number.grainsInOne_pos
  rw [Nat.one_mul, Number.ofQuotient_grains] at scaled
  rw [← Number.grainsInOne_eq, scaled] at reads
  have digits : Nat.pow 5 1074 = 5 ^ 1074 := by decide +kernel
  rw [exactDecimal, digits]
  exact reads

theorem isReadFrom_iff (decimal : Decimal) : number.isReadFrom decimal = true ↔
    Number.ofDecimal number.negative decimal.coefficient decimal.exponent = .finite number :=
  decide_eq_true_iff

/-- A multiple that is found is read as the number, and the zeros at its end were taken off. -/
theorem of_nearestMultiple {tie : Tie} {exponent : Int} {decimal : Decimal}
    (nearest : number.nearestMultiple? tie exponent = some decimal) :
    number.isReadFrom decimal = true ∧
      ∃ coefficient, decimal = Decimal.withoutZeros coefficient exponent := by
  unfold nearestMultiple? at nearest
  dsimp only at nearest
  split at nearest
  · split at nearest
    · obtain rfl := Option.some.inj nearest
      exact ⟨‹_›, _, rfl⟩
    · obtain rfl := Option.some.inj nearest
      exact ⟨‹_›, _, rfl⟩
  · obtain rfl := Option.some.inj nearest
    exact ⟨‹_›, _, rfl⟩
  · obtain rfl := Option.some.inj nearest
    exact ⟨‹_›, _, rfl⟩
  · cases nearest

def searchedExponents (number : Finite) : List Int :=
  (List.range 17).map fun (count : Nat) => number.firstDigitExponent - (count : Int)

theorem shortest_eq (tie : Tie) (visible : number.isZero = false) :
    number.shortest tie =
      (number.searchedExponents.findSome? (number.nearestMultiple? tie)).getD number.exactDecimal := by
  rw [shortest, visible, if_neg Bool.false_ne_true]
  rfl

/-- The decimal that is chosen for a number is read as the number. -/
theorem isReadFrom_shortest (tie : Tie) (visible : number.isZero = false) :
    number.isReadFrom (number.shortest tie) = true := by
  rw [shortest_eq tie visible]
  cases search : number.searchedExponents.findSome? (number.nearestMultiple? tie) with
  | none =>
    rw [Option.getD_none, isReadFrom_iff]
    exact ofDecimal_exactDecimal visible
  | some decimal =>
    obtain ⟨exponent, -, nearest⟩ := List.exists_of_findSome?_eq_some search
    rw [Option.getD_some]
    exact (of_nearestMultiple nearest).1

end Finite
end TreeTemplate
