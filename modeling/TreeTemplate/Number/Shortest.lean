import TreeTemplate.Number.Basic
import TreeTemplate.Text.Basic

/-!
# Shortest decimals

The shortest decimal of a finite number is the one with the fewest digits among those that read
back as the number, and of these the nearest. For each count of digits only the two decimals next
to the number can be in question, and reading them back is what is tested, so the result reads
back by construction.
-/
set_option autoImplicit false

namespace TreeTemplate

/-- A decimal: `coefficient * 10 ^ exponent`. -/
structure Decimal where
  coefficient : Nat
  exponent : Int
  deriving DecidableEq

namespace Decimal

/-- The same decimal with no zero at the end of its coefficient. -/
def withoutZeros (coefficient : Nat) (exponent : Int) : Decimal :=
  if coefficient ≠ 0 ∧ coefficient % 10 = 0 then withoutZeros (coefficient / 10) (exponent + 1)
  else ⟨coefficient, exponent⟩
termination_by coefficient
decreasing_by omega

def digits (decimal : Decimal) : Text :=
  Text.numeral decimal.coefficient

def leading (decimal : Decimal) : Int :=
  decimal.exponent + (decimal.digits.length - 1 : Nat)

end Decimal

/-- Which of two equally near decimals is taken. -/
inductive Tie where
  /-- The one of greater magnitude. -/
  | up
  /-- The one with an even last digit. -/
  | even
  deriving DecidableEq

namespace Finite

/-- Whether the decimal, with the sign of the number, is read as the number. -/
def isReadFrom (number : Finite) (decimal : Decimal) : Bool :=
  Number.ofDecimal number.negative decimal.coefficient decimal.exponent = .finite number

/-- The exponent of the first decimal digit of a number other than zero. All magnitudes are at
least `10 ^ -400`, so that this multiple has a whole part with the same digits. -/
def firstDigitExponent (number : Finite) : Int :=
  ((Text.numeral (number.grains * Nat.pow 10 400 / grainsInOne)).length : Int) - 401

/-- The magnitude over `10 ^ exponent`, as a numerator and a denominator. -/
def overPower (number : Finite) (exponent : Int) : Nat × Nat :=
  if 0 ≤ exponent then (number.grains, grainsInOne * Nat.pow 10 exponent.toNat)
  else (number.grains * Nat.pow 10 (-exponent).toNat, grainsInOne)

/-- The decimal nearest to the number among those that are multiples of `10 ^ exponent` and read
back as the number. -/
def nearestMultiple? (tie : Tie) (number : Finite) (exponent : Int) : Option Decimal :=
  let (numerator, denominator) := number.overPower exponent
  let quotient := numerator / denominator
  let doubled := 2 * (numerator % denominator)
  let lower := Decimal.withoutZeros quotient exponent
  let upper := Decimal.withoutZeros (quotient + 1) exponent
  let lowerFirst := doubled < denominator ||
    (doubled = denominator && tie = .even && quotient % 2 = 0)
  match number.isReadFrom lower, number.isReadFrom upper with
  | true, true => if lowerFirst then some lower else some upper
  | true, false => some lower
  | false, true => some upper
  | false, false => none

/-- All digits of the number. -/
def exactDecimal (number : Finite) : Decimal :=
  ⟨number.grains * Nat.pow 5 1074, -1074⟩

/-- The decimal with the fewest digits that reads back as the number, the nearest of these, and of
two equally near ones the one that the tie rule takes. Seventeen digits are always enough. -/
def shortest (tie : Tie) (number : Finite) : Decimal :=
  if number.isZero then ⟨0, 0⟩
  else
    let first := number.firstDigitExponent
    let counts := (List.range 17).map fun (count : Nat) => first - (count : Int)
    (counts.findSome? (number.nearestMultiple? tie)).getD number.exactDecimal

end Finite

end TreeTemplate
