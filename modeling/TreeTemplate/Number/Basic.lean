/-!
# Binary64 numbers

The numbers of the binary64 format, with exact arithmetic in the natural numbers and no machine
floating point. The unit of measure is the *grain*, the smallest positive number `2 ^ -1074`: every
finite number is a whole number of grains with a sign, and zero has both signs.

Main definition: `Number.ofQuotient` rounds an exact quotient of grains to the nearest number, a
half going to the even neighbour; a quotient beyond the largest finite number becomes infinite.
-/
set_option autoImplicit false

namespace TreeTemplate

/-- Whether a significand and a scale are those of a finite number: 53 bits at most, all of them
used unless the scale is the lowest. This makes the two unique for each number. -/
def IsCanonical (significand scale : Nat) : Prop :=
  significand < Nat.pow 2 53 ∧ scale ≤ 2045 ∧ (scale = 0 ∨ Nat.pow 2 52 ≤ significand)

instance decidableIsCanonical (significand scale : Nat) : Decidable (IsCanonical significand scale) :=
  inferInstanceAs (Decidable (_ ∧ _ ∧ _))

/-- A finite number: a sign and `significand * 2 ^ scale` grains. -/
structure Finite where
  negative : Bool
  significand : Nat
  scale : Nat
  canonical : IsCanonical significand scale
  deriving DecidableEq

/-- A binary64 number. There is one number that is not a number. -/
inductive Number where
  | nan
  | infinite (negative : Bool)
  | finite (value : Finite)
  deriving DecidableEq

/-- The number of grains in one. -/
def grainsInOne : Nat := Nat.pow 2 1074

namespace Finite

def grains (number : Finite) : Nat :=
  number.significand * Nat.pow 2 number.scale

def zero (negative : Bool) : Finite :=
  ⟨negative, 0, 0, by decide⟩

/-- Whether the number is one of the two zeros. -/
def isZero (number : Finite) : Bool :=
  number.significand = 0

def withSign (negative : Bool) (number : Finite) : Finite :=
  { number with negative := negative }

end Finite

/-- The whole number nearest to a quotient, a half going to the even neighbour. -/
def roundHalfEven (numerator denominator : Nat) : Nat :=
  let quotient := numerator / denominator
  let doubled := 2 * (numerator % denominator)
  if denominator < doubled || (doubled = denominator && quotient % 2 = 1) then quotient + 1
  else quotient

namespace Number

/-- The number with the given parts, infinite if there is no such finite number. -/
def ofParts (negative : Bool) (significand scale : Nat) : Number :=
  if canonical : IsCanonical significand scale then
    .finite ⟨negative, significand, scale, canonical⟩
  else .infinite negative

/-- The number nearest to `numerator / denominator` grains, a half going to the even neighbour. The
scale leaves 53 bits of the quotient; a significand that is rounded up to a 54th bit is halved. -/
def ofQuotient (negative : Bool) (numerator denominator : Nat) : Number :=
  let scale := (numerator / denominator).log2 - 52
  let significand := roundHalfEven numerator (denominator * Nat.pow 2 scale)
  if significand = Nat.pow 2 53 then ofParts negative (Nat.pow 2 52) (scale + 1)
  else ofParts negative significand scale

def ofInt (value : Int) : Number :=
  ofQuotient (decide (value < 0)) (value.natAbs * grainsInOne) 1

/-- The number nearest to `coefficient * 10 ^ exponent`. The two bounds on the exponent decide
without a large power: `10 ^ 311` is beyond all finite numbers, and a product below `2 ^ -1075` is
nearer to zero than to the first grain. -/
def ofDecimal (negative : Bool) (coefficient : Nat) (exponent : Int) : Number :=
  if coefficient = 0 then .finite (Finite.zero negative)
  else if 310 < exponent then .infinite negative
  else if (coefficient.log2 : Int) + 1 + 3 * exponent ≤ -1075 then .finite (Finite.zero negative)
  else if 0 ≤ exponent then
    ofQuotient negative (coefficient * Nat.pow 10 exponent.toNat * grainsInOne) 1
  else ofQuotient negative (coefficient * grainsInOne) (Nat.pow 10 (-exponent).toNat)

end Number

namespace Finite

def mulMagnitude (left right : Finite) : Number :=
  Number.ofQuotient false (left.grains * right.grains) grainsInOne

/-- The number nearest to the quotient of two magnitudes, the second of which is not zero. -/
def divMagnitude (left right : Finite) : Number :=
  Number.ofQuotient false (left.grains * grainsInOne) right.grains

end Finite

end TreeTemplate
