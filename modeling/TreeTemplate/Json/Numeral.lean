import TreeTemplate.Json.Basic

/-!
# Numbers in JSON texts

How the number of a JSON text is valued. Digits are gathered into a significand of 64 bits for as
long as they fit. A whole number that fits is an integer; any other number is the significand,
rounded, and then multiplied or divided by a rounded power of ten, rounded again. The result can
differ from the number nearest to the decimal.
-/
set_option autoImplicit false

namespace TreeTemplate.Json

/-- A number as it is written: `whole`, the digits after the point if there is one, and the value
of the exponent if there is one. -/
structure Numeral where
  negative : Bool
  whole : Text
  fraction : Option Text
  exponent : Option Int

/-- Appends digits to a significand for as long as it stays below `2 ^ 64`. Returns the significand
and the digits that are left over. -/
def gather (significand : Nat) : Text → Nat × Text
  | [] => (significand, [])
  | head :: rest =>
    let longer := 10 * significand + Text.digitValue head
    if longer < Nat.pow 2 64 then gather longer rest else (significand, head :: rest)

/-- The magnitude multiplied by a power of ten, unless the product is too large. -/
def scaleUp? (number : Finite) (power : Nat) : Option Finite :=
  match Number.ofDecimal false 1 power with
  | .finite factor =>
    match number.mulMagnitude factor with
    | .finite product => some product
    | _ => none
  | _ => if number.isZero then some number else none

/-- The magnitude divided by the number nearest to a power of ten. -/
def divideByPower (number : Finite) (power : Nat) : Finite :=
  match Number.ofDecimal false 1 power with
  | .finite divisor =>
    match number.divMagnitude divisor with
    | .finite quotient => quotient
    | _ => number
  | _ => number

/-- The magnitude divided by a power of ten, by steps of `10 ^ 308` where the power is larger. -/
def scaleDown (number : Finite) (power : Nat) : Finite :=
  if power ≤ 308 then divideByPower number power
  else if number.isZero then number
  else scaleDown (divideByPower number 308) (power - 308)
termination_by power
decreasing_by omega

/-- The float with a significand and a power of ten, unless it is too large. -/
def float? (negative : Bool) (significand : Nat) (power : Int) : Option Json :=
  match Number.ofInt significand with
  | .finite number =>
    let scaled := if 0 ≤ power then scaleUp? number power.toNat
      else some (scaleDown number (-power).toNat)
    scaled.map fun result => float (result.withSign negative)
  | _ => none

/-- The value of a numeral, unless it is too large. A negative whole number is an integer from
`-1` down to `-2 ^ 63`. -/
def Numeral.value? (numeral : Numeral) : Option Json :=
  let (significand, surplus) := gather 0 numeral.whole
  match numeral.fraction, numeral.exponent with
  | none, none =>
    if !surplus.isEmpty then float? numeral.negative significand surplus.length
    else if !numeral.negative then some (integer significand)
    else if 0 < significand && significand ≤ Nat.pow 2 63 then some (integer (-(significand : Int)))
    else float? true significand 0
  | none, some exponent => float? numeral.negative significand (surplus.length + exponent)
  | some fraction, exponent =>
    let (extended, dropped) := gather significand fraction
    let places : Int := fraction.length - dropped.length
    float? numeral.negative extended (surplus.length - places + exponent.getD 0)

end TreeTemplate.Json
