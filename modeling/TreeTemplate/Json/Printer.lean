import TreeTemplate.Json.Basic
import TreeTemplate.Number.Notation
import TreeTemplate.Text.Quoted

/-!
# Writing JSON

The compact text of a JSON value: no blanks, fields in their order, and only those characters of a
string escaped that may not stand in it.
-/
set_option autoImplicit false

namespace TreeTemplate

/-- Numbers in JSON texts: always with a point or an exponent, positional from `10 ^ -5` up to
`10 ^ 16`, exponents signed, a half to the even digit. -/
def jsonStyle : NumberStyle :=
  ⟨.even, -5, 15, 15, true⟩

example : (Number.ofDecimal false 125 14).text jsonStyle = "1.25e+16".toList := by decide +kernel

def integerText (value : Int) : Text :=
  (if value < 0 then ['-'] else []) ++ Text.numeral value.natAbs

namespace Json

/-- One character of a string: quotes, backslashes and control characters are escaped. -/
def escapedCharacter (character : Char) : Text :=
  if character = '"' || character = '\\' then ['\\', character]
  else if character = '\x08' then ['\\', 'b']
  else if character = '\x0c' then ['\\', 'f']
  else if character = '\n' then ['\\', 'n']
  else if character = '\r' then ['\\', 'r']
  else if character = '\t' then ['\\', 't']
  else if character.toNat < 0x20 then
    ['\\', 'u', '0', '0', Text.hexDigit (character.toNat / 16), Text.hexDigit (character.toNat % 16)]
  else [character]

def stringText (value : Text) : Text :=
  ['"'] ++ value.flatMap escapedCharacter ++ ['"']

mutual

def compact : Json → Text
  | null => "null".toList
  | bool value => if value then "true".toList else "false".toList
  | integer value => integerText value
  | float value => value.render jsonStyle
  | string value => stringText value
  | array items => '[' :: (compactItems items ++ [']'])
  | object fields => '{' :: (compactFields fields ++ ['}'])

def compactItems : List Json → Text
  | [] => []
  | [item] => compact item
  | item :: next :: rest => compact item ++ ',' :: compactItems (next :: rest)

def compactFields : List (Text × Json) → Text
  | [] => []
  | [(name, value)] => stringText name ++ ':' :: compact value
  | (name, value) :: next :: rest =>
    stringText name ++ ':' :: compact value ++ ',' :: compactFields (next :: rest)

end

end Json

end TreeTemplate
