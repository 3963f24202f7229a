import TreeTemplate.Text.Unseen

/-!
# Quoted texts

The quoted form of a text, as log records show it: in double quotes, on one line, with everything
that could not be seen between the quotes spelled out.
-/
set_option autoImplicit false

namespace TreeTemplate.Text

def hexDigit (value : Nat) : Char :=
  if value < 10 then digit value else Char.ofNat ('a'.toNat + (value - 10))

/-- The hexadecimal numeral of a natural number, without leading zeros. -/
def hexNumeral (value : Nat) : Text :=
  if value < 16 then [hexDigit value] else hexNumeral (value / 16) ++ [hexDigit (value % 16)]
termination_by value

def quotedCharacter (character : Char) : Text :=
  if character = '"' || character = '\\' then ['\\', character]
  else if character = '\n' then ['\\', 'n']
  else if character = '\r' then ['\\', 'r']
  else if character = '\t' then ['\\', 't']
  else if character.toNat = 0 then ['\\', '0']
  else if isUnseen character then ['\\', 'u', '{'] ++ hexNumeral character.toNat ++ ['}']
  else [character]

/-- The text in double quotes: quotes and backslashes escaped, unseen characters spelled out. -/
def quoted (text : Text) : Text :=
  ['"'] ++ text.flatMap quotedCharacter ++ ['"']

end TreeTemplate.Text
