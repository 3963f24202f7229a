import TreeTemplate.Number.Shortest

/-!
# Writing numbers

The text of a finite number is its shortest decimal, positional or with an exponent. A style says
where positional notation ends, when a whole number keeps a point, and how an exponent is signed.
-/
set_option autoImplicit false

namespace TreeTemplate

/-- The decisions of a number format. Exponents are those of the first digit. -/
structure NumberStyle where
  /-- Which of two equally near shortest decimals is written. -/
  tie : Tie
  /-- The lowest exponent that is written positionally. -/
  positionalFrom : Int
  /-- The highest exponent that is written positionally. -/
  positionalTo : Int
  /-- The highest exponent up to which a whole number is written with one decimal place. -/
  pointTo : Int
  /-- Whether a positive exponent has a sign. -/
  signedExponent : Bool

namespace Decimal

/-- The positional text: the digits with zeros and a point where they are needed. -/
def positional (decimal : Decimal) : Text :=
  let digits := decimal.digits
  if 0 ≤ decimal.exponent then digits ++ List.replicate decimal.exponent.toNat '0'
  else
    let places := (-decimal.exponent).toNat
    if places < digits.length then
      digits.take (digits.length - places) ++ '.' :: digits.drop (digits.length - places)
    else '0' :: '.' :: List.replicate (places - digits.length) '0' ++ digits

/-- The text with an exponent: one digit, a point and the other digits if there are any, the
exponent of the first digit. -/
def scientific (signed : Bool) (decimal : Decimal) : Text :=
  let fraction := match decimal.digits with
    | first :: second :: rest => first :: '.' :: second :: rest
    | few => few
  let exponent := decimal.leading
  let sign := if exponent < 0 then ['-'] else if signed then ['+'] else []
  fraction ++ 'e' :: sign ++ Text.numeral exponent.natAbs

end Decimal

def Finite.render (style : NumberStyle) (number : Finite) : Text :=
  let decimal := number.shortest style.tie
  let leading := decimal.leading
  let sign := if number.negative then ['-'] else []
  let magnitude :=
    if style.positionalFrom ≤ leading && leading ≤ style.positionalTo then
      if 0 ≤ decimal.exponent && leading ≤ style.pointTo then decimal.positional ++ ['.', '0']
      else decimal.positional
    else decimal.scientific style.signedExponent
  sign ++ magnitude

/-- Numbers inside placeholders: a point for whole numbers below `10 ^ 7`, positional from
`10 ^ -3` up to `10 ^ 21`, a half away from zero. -/
def scriptStyle : NumberStyle :=
  ⟨.up, -3, 20, 6, false⟩

/-- The text of a number, whose finite values have the given style. -/
def Number.text (style : NumberStyle) : Number → Text
  | .nan => "NaN".toList
  | .infinite negative => if negative then "-Infinity".toList else "Infinity".toList
  | .finite value => value.render style

/-- The text of a number inside a placeholder. -/
def Number.scriptText (number : Number) : Text :=
  number.text scriptStyle

example : (Number.ofInt 9999999).scriptText = "9999999.0".toList := by decide +kernel

example : (Number.ofDecimal false 25 (-5)).scriptText = "2.5e-4".toList := by decide +kernel

end TreeTemplate
