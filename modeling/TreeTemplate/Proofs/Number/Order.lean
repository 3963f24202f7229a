import Mathlib.Tactic.Linarith
import TreeTemplate.Proofs.Number.Rounding

/-!
# Rounding in order

Of two quotients the greater one is not rounded to the smaller number, and so decimals are read in the
order of their values. A whole number of 53 bits is read as itself.
-/
set_option autoImplicit false

namespace TreeTemplate

section Quotients
variable {numerator denominator otherNumerator otherDenominator : Nat}

theorem roundHalfEven_cases (numerator denominator : Nat) :
    roundHalfEven numerator denominator = numerator / denominator ∨
      roundHalfEven numerator denominator = numerator / denominator + 1 := by
  rw [roundHalfEven]
  split
  · exact .inr rfl
  · exact .inl rfl

theorem roundHalfEven_eq_succ_iff :
    roundHalfEven numerator denominator = numerator / denominator + 1 ↔
      denominator < 2 * (numerator % denominator) ∨
        2 * (numerator % denominator) = denominator ∧ numerator / denominator % 2 = 1 := by
  simp [roundHalfEven, or_iff_not_imp_left]

section Ordered
variable (positive : 0 < denominator) (otherPositive : 0 < otherDenominator)
  (ordered : numerator * otherDenominator ≤ otherNumerator * denominator)
include positive otherPositive ordered

theorem div_le_div_of_ordered :
    numerator / denominator ≤ otherNumerator / otherDenominator := by
  rw [Nat.le_div_iff_mul_le otherPositive]
  refine Nat.le_of_mul_le_mul_right ?_ positive
  calc numerator / denominator * otherDenominator * denominator
      = numerator / denominator * denominator * otherDenominator := Nat.mul_right_comm ..
    _ ≤ numerator * otherDenominator := Nat.mul_le_mul_right _ (Nat.div_mul_le_self ..)
    _ ≤ otherNumerator * denominator := ordered

theorem roundHalfEven_mono :
    roundHalfEven numerator denominator ≤ roundHalfEven otherNumerator otherDenominator := by
  have quotients := div_le_div_of_ordered positive otherPositive ordered
  have cases := roundHalfEven_cases numerator denominator
  have otherCases := roundHalfEven_cases otherNumerator otherDenominator
  rcases Nat.lt_or_eq_of_le quotients with below | same
  · omega
  · -- With the same whole part, the remainders are ordered as the quotients are.
    have remainders : numerator % denominator * otherDenominator ≤
        otherNumerator % otherDenominator * denominator := by
      have first := Nat.div_add_mod numerator denominator
      have second := Nat.div_add_mod otherNumerator otherDenominator
      rw [← same] at second
      nlinarith only [ordered, first, second]
    have upward (roundsUp : roundHalfEven numerator denominator = numerator / denominator + 1) :
        roundHalfEven otherNumerator otherDenominator = otherNumerator / otherDenominator + 1 := by
      rw [roundHalfEven_eq_succ_iff] at roundsUp ⊢
      rw [← same]
      rcases roundsUp with above | ⟨tied, isOdd⟩
      · left
        nlinarith only [above, remainders, positive, otherPositive]
      · rcases Nat.lt_trichotomy otherDenominator (2 * (otherNumerator % otherDenominator)) with
          above | otherTied | below
        · exact .inl above
        · exact .inr ⟨otherTied.symm, isOdd⟩
        · nlinarith only [tied, below, remainders, positive]
    omega

end Ordered
end Quotients

namespace Number

def roundingScale (numerator denominator : Nat) : Nat :=
  (numerator / denominator).log2 - 52

/-- The grains of the number that a quotient is rounded to, be it finite or not. -/
def roundedGrains (numerator denominator : Nat) : Nat :=
  roundHalfEven numerator (denominator * 2 ^ (roundingScale numerator denominator)) *
    2 ^ (roundingScale numerator denominator)

theorem grains_ofParts {negative : Bool} {significand scale : Nat} {number : Finite}
    (isFinite : ofParts negative significand scale = .finite number) :
    number.grains = significand * 2 ^ scale := by
  rw [ofParts] at isFinite
  split at isFinite
  · rw [← Number.finite.inj isFinite, Finite.grains, Nat.pow_eq]
  · cases isFinite

theorem grains_ofQuotient {negative : Bool} {numerator denominator : Nat} {number : Finite}
    (isFinite : ofQuotient negative numerator denominator = .finite number) :
    number.grains = roundedGrains numerator denominator := by
  rw [ofQuotient] at isFinite
  change (if roundHalfEven numerator
    (denominator * 2 ^ (roundingScale numerator denominator)) = 2 ^ 53 then _ else _) = _
    at isFinite
  rw [roundedGrains]
  split at isFinite
  · rename_i carried
    rw [grains_ofParts isFinite, carried, Nat.pow_eq, ← Nat.pow_add, ← Nat.pow_add, roundingScale]
    exact congrArg (2 ^ ·) (by omega)
  · exact grains_ofParts isFinite

section Quotients
variable {numerator denominator otherNumerator otherDenominator : Nat}

theorem roundHalfEven_scale_le (numerator denominator : Nat) :
    roundHalfEven numerator (denominator * 2 ^ (roundingScale numerator denominator)) ≤
      2 ^ 53 := by
  have cases := roundHalfEven_cases numerator
    (denominator * 2 ^ (roundingScale numerator denominator))
  have short : numerator / denominator / 2 ^ (roundingScale numerator denominator) <
      2 ^ 53 := by
    rw [Nat.div_lt_iff_lt_mul (Nat.pow_pos (by decide)), ← Nat.pow_add]
    refine Nat.lt_log2_self.trans_le (Nat.pow_le_pow_right (by decide) ?_)
    rw [roundingScale]
    omega
  rw [Nat.div_div_eq_div_mul] at short
  omega

theorem le_roundHalfEven_scale (scaled : 0 < roundingScale numerator denominator) :
    2 ^ 52 ≤
      roundHalfEven numerator (denominator * 2 ^ (roundingScale numerator denominator)) := by
  have cases := roundHalfEven_cases numerator
    (denominator * 2 ^ (roundingScale numerator denominator))
  have long : 2 ^ 52 ≤
      numerator / denominator / 2 ^ (roundingScale numerator denominator) := by
    have bits : 52 + roundingScale numerator denominator = (numerator / denominator).log2 := by
      rw [roundingScale] at scaled ⊢
      omega
    rw [Nat.le_div_iff_mul_le (Nat.pow_pos (by decide)), ← Nat.pow_add, bits]
    refine Nat.log2_self_le ?_
    intro nothing
    rw [roundingScale, nothing] at scaled
    exact absurd scaled (by decide)
  rw [Nat.div_div_eq_div_mul] at long
  omega

section Ordered
variable (positive : 0 < denominator) (otherPositive : 0 < otherDenominator)
  (ordered : numerator * otherDenominator ≤ otherNumerator * denominator)
include positive otherPositive ordered

theorem roundedGrains_mono :
    roundedGrains numerator denominator ≤ roundedGrains otherNumerator otherDenominator := by
  have scales : roundingScale numerator denominator ≤
      roundingScale otherNumerator otherDenominator := by
    have logs := Nat.log_mono_right (b := 2) (div_le_div_of_ordered positive otherPositive ordered)
    rw [← Nat.log2_eq_log_two, ← Nat.log2_eq_log_two] at logs
    exact Nat.sub_le_sub_right logs 52
  rw [roundedGrains, roundedGrains]
  rcases Nat.lt_or_eq_of_le scales with below | same
  · -- What is rounded at a lower scale does not reach beyond the first 53 bits of the next one.
    have full := le_roundHalfEven_scale (Nat.zero_lt_of_lt below)
    calc _ ≤ 2 ^ 53 * 2 ^ (roundingScale numerator denominator) :=
          Nat.mul_le_mul_right _ (roundHalfEven_scale_le numerator denominator)
      _ = 2 ^ (53 + roundingScale numerator denominator) := (Nat.pow_add ..).symm
      _ ≤ 2 ^ (52 + roundingScale otherNumerator otherDenominator) :=
          Nat.pow_le_pow_right (by decide) (by omega)
      _ = 2 ^ 52 * 2 ^ (roundingScale otherNumerator otherDenominator) := Nat.pow_add ..
      _ ≤ _ := Nat.mul_le_mul_right _ full
  · rw [← same]
    have unit : 0 < 2 ^ roundingScale numerator denominator := Nat.pow_pos (by decide)
    refine Nat.mul_le_mul_right _
      (roundHalfEven_mono (Nat.mul_pos positive unit) (Nat.mul_pos otherPositive unit) ?_)
    rw [← Nat.mul_assoc, ← Nat.mul_assoc]
    exact Nat.mul_le_mul_right _ ordered

end Ordered
end Quotients

/-- A whole number of 53 bits is its own rounding. -/
theorem roundedGrains_whole {value : Nat} (filled : value ≠ 0) (short : value < 2 ^ 53) :
    roundedGrains (value * grainsInOne) 1 = value * grainsInOne := by
  have bits : value.log2 < 53 := (Nat.log2_lt filled).mpr short
  have long : (value * grainsInOne).log2 = value.log2 + 1074 := by
    rw [grainsInOne_eq]
    exact log2_scaled filled 1074
  have divided : grainsInOne = 2 ^ (52 - value.log2) * 2 ^ (value.log2 + 1074 - 52) := by
    rw [grainsInOne_eq, ← Nat.pow_add]
    exact congrArg (2 ^ ·) (by omega)
  rw [roundedGrains, roundingScale, Nat.div_one, Nat.one_mul, long, divided, ← Nat.mul_assoc,
    roundHalfEven_multiple _ (Nat.pow_pos (by decide))]

section Decimals
variable {negative otherNegative : Bool} {coefficient otherCoefficient : Nat}
  {exponent otherExponent : Int} {number other : Finite}

/-- Decimals are read in their order. The places are as many as both of them need. -/
theorem grains_le_of_ordered (reads : ofDecimal negative coefficient exponent = .finite number)
    (otherReads : ofDecimal otherNegative otherCoefficient otherExponent = .finite other)
    (visible : number.isZero = false) (otherVisible : other.isZero = false) {places : Nat}
    (enough : 0 ≤ exponent + places) (otherEnough : 0 ≤ otherExponent + places)
    (ordered : coefficient * 10 ^ (exponent + places).toNat ≤
      otherCoefficient * 10 ^ (otherExponent + places).toNat) :
    number.grains ≤ other.grains := by
  rw [(isWithin_of_ofDecimal reads visible).ofDecimal_eq negative enough] at reads
  rw [(isWithin_of_ofDecimal otherReads otherVisible).ofDecimal_eq _ otherEnough] at otherReads
  have unit : 0 < 10 ^ places := Nat.pow_pos (by decide)
  rw [grains_ofQuotient reads, grains_ofQuotient otherReads]
  exact roundedGrains_mono unit unit
    (Nat.mul_le_mul_right _ (Nat.mul_le_mul_right _ ordered))

/-- A whole decimal is read as the quotient that it denotes. -/
theorem ofDecimal_whole (negative : Bool) (filled : coefficient ≠ 0) (whole : 0 ≤ exponent)
    (high : exponent ≤ 310) :
    ofDecimal negative coefficient exponent =
      ofQuotient negative (coefficient * 10 ^ exponent.toNat * grainsInOne) 1 := by
  rw [ofDecimal, if_neg filled, if_neg (by omega), if_neg (by omega), if_pos whole, Nat.pow_eq]

end Decimals
end Number

namespace Finite
variable {number other : Finite}

theorem eq_zero_of_isZero (zero : number.isZero = true) : number = Finite.zero number.negative := by
  have nothing : number.significand = 0 := of_decide_eq_true zero
  have lowest : number.scale = 0 := Number.scale_of_no_significand nothing
  obtain ⟨negative, significand, scale, canonical⟩ := number
  obtain rfl : significand = 0 := nothing
  obtain rfl : scale = 0 := lowest
  rfl

theorem eq_of_grains (sign : number.negative = other.negative)
    (grains : number.grains = other.grains) : number = other := by
  have own := Number.ofQuotient_grains number
  rw [sign, grains, Number.ofQuotient_grains other] at own
  exact (Number.finite.inj own).symm

end Finite
end TreeTemplate
