import TreeTemplate.Number.Basic
import TreeTemplate.Text.Basic

/-!
# Reading numbers

A number is read from an optional sign and either one of the words `inf`, `infinity` and `nan` in
any case, or decimal digits with an optional point, at least one digit in all, and an optional
exponent. The value is the number nearest to the decimal.
-/
set_option autoImplicit false

namespace TreeTemplate

/-- The text without its sign, and whether the sign is a minus. -/
def takeSign : Text → Bool × Text
  | '-' :: rest => (true, rest)
  | '+' :: rest => (false, rest)
  | text => (false, text)

/-- The exponent part that ends a number: nothing, or `e`, an optional sign and digits. -/
def readExponent? : Text → Option Int
  | [] => some 0
  | mark :: rest =>
    if mark = 'e' || mark = 'E' then
      let (negative, digits) := takeSign rest
      if digits.isEmpty || !digits.all Char.isDigit then none
      else
        let value : Int := Text.valueOfDigits digits
        some (if negative then -value else value)
    else none

namespace Number

/-- The number that digits with an optional point and exponent denote. -/
def readDecimal? (negative : Bool) (text : Text) : Option Number :=
  let (whole, rest) := Text.spanWhile Char.isDigit text
  let (fraction, rest) := match rest with
    | '.' :: more => Text.spanWhile Char.isDigit more
    | _ => ([], rest)
  if whole.isEmpty && fraction.isEmpty then none
  else (readExponent? rest).map fun exponent =>
    ofDecimal negative (Text.valueOfDigits (whole ++ fraction)) (exponent - fraction.length)

def read? (text : Text) : Option Number :=
  let (negative, body) := takeSign text
  let word := body.map Char.toLower
  if word = "nan".toList then some .nan
  else if word = "inf".toList || word = "infinity".toList then some (.infinite negative)
  else readDecimal? negative body

end Number

end TreeTemplate
