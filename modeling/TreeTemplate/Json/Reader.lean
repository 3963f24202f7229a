import TreeTemplate.Json.Numeral
import TreeTemplate.Number.Reader

/-!
# Reading JSON

The reader of JSON texts. It is strict: no blanks but space, tab and line ends, no control
characters or lone surrogates in strings, no leading zeros, nothing after the value, and arrays and
objects at most 127 deep. Of two fields with one name the last one wins.
-/
set_option autoImplicit false

namespace TreeTemplate.Json

/-- Whether the character may stand between the parts of a JSON text. -/
def isSpacing (character : Char) : Bool :=
  character = ' ' || character = '\t' || character = '\n' || character = '\r'

def skipSpacing (text : Text) : Text :=
  text.dropWhile isSpacing

def hexDigitValue? (character : Char) : Option Nat :=
  if '0' ≤ character && character ≤ '9' then some (character.toNat - '0'.toNat)
  else if 'a' ≤ character && character ≤ 'f' then some (character.toNat - 'a'.toNat + 10)
  else if 'A' ≤ character && character ≤ 'F' then some (character.toNat - 'A'.toNat + 10)
  else none

def hexUnit? (first second third fourth : Char) : Option Nat := do
  let a ← hexDigitValue? first
  let b ← hexDigitValue? second
  let c ← hexDigitValue? third
  let d ← hexDigitValue? fourth
  return ((a * 16 + b) * 16 + c) * 16 + d

/-- The character after a backslash, unless it starts a numeric escape. -/
def simpleEscape? (character : Char) : Option Char :=
  if character = '"' || character = '\\' || character = '/' then some character
  else if character = 'b' then some '\x08'
  else if character = 'f' then some '\x0c'
  else if character = 'n' then some '\n'
  else if character = 'r' then some '\r'
  else if character = 't' then some '\t'
  else none

def prepend (character : Char) (read : Text × Text) : Text × Text :=
  (character :: read.1, read.2)

/-- The content of a string up to its closing quote, and what follows. A unit of the high
surrogates needs one of the low surrogates after it, and the two are one character. -/
def readString? : Text → Option (Text × Text)
  | [] => none
  | '"' :: rest => some ([], rest)
  | '\\' :: 'u' :: a :: b :: c :: d :: rest =>
    match hexUnit? a b c d with
    | none => none
    | some unit =>
      if 0xDC00 ≤ unit && unit ≤ 0xDFFF then none
      else if 0xD800 ≤ unit && unit ≤ 0xDBFF then
        match rest with
        | '\\' :: 'u' :: e :: f :: g :: h :: more =>
          match hexUnit? e f g h with
          | none => none
          | some low =>
            if 0xDC00 ≤ low && low ≤ 0xDFFF then
              let point := 0x10000 + (unit - 0xD800) * 0x400 + (low - 0xDC00)
              (readString? more).map (prepend (Char.ofNat point))
            else none
        | _ => none
      else (readString? rest).map (prepend (Char.ofNat unit))
  | '\\' :: escape :: rest =>
    match simpleEscape? escape with
    | none => none
    | some character => (readString? rest).map (prepend character)
  | character :: rest =>
    if character.toNat < 0x20 || character = '\\' then none
    else (readString? rest).map (prepend character)

/-- The digits after the point of a numeral, if there is a point. -/
def readFraction? : Text → Option (Option Text × Text)
  | '.' :: rest =>
    let (digits, after) := Text.spanWhile Char.isDigit rest
    if digits.isEmpty then none else some (some digits, after)
  | text => some (none, text)

def readExponent? : Text → Option (Option Int × Text)
  | [] => some (none, [])
  | mark :: rest =>
    if mark = 'e' || mark = 'E' then
      let (negative, unsigned) := takeSign rest
      let (digits, after) := Text.spanWhile Char.isDigit unsigned
      if digits.isEmpty then none
      else
        let value : Int := Text.valueOfDigits digits
        some (some (if negative then -value else value), after)
    else some (none, mark :: rest)

def readNumeral? (text : Text) : Option (Numeral × Text) := do
  let (negative, body) := match text with
    | '-' :: rest => (true, rest)
    | rest => (false, rest)
  let (whole, afterWhole) := Text.spanWhile Char.isDigit body
  if whole.isEmpty || (whole.head? = some '0' && whole.length ≠ 1) then none
  else
    let (fraction, afterFraction) ← readFraction? afterWhole
    let (exponent, after) ← readExponent? afterFraction
    return (⟨negative, whole, fraction, exponent⟩, after)

def readNumber? (text : Text) : Option (Json × Text) := do
  let (numeral, after) ← readNumeral? text
  let value ← numeral.value?
  return (value, after)

/-- The rest of a text that starts with a word. -/
def afterWord? (word text : Text) : Option Text :=
  if word.isPrefixOf text then some (text.drop word.length) else none

/-- One or more items up to the closing bracket. The number bounds the items; it is enough if it is
the length of the text, since an item has a character. -/
def readItems? (readItem : Text → Option (Json × Text)) : Nat → Text → Option (List Json × Text)
  | 0, _ => none
  | bound + 1, text => do
    let (item, afterItem) ← readItem text
    match skipSpacing afterItem with
    | ',' :: rest => do
      let (items, after) ← readItems? readItem bound rest
      return (item :: items, after)
    | ']' :: after => some ([item], after)
    | _ => none

/-- One or more fields up to the closing brace, with a bound on their number. -/
def readFields? (readItem : Text → Option (Json × Text)) :
    Nat → Text → Option (Entries Text Json × Text)
  | 0, _ => none
  | bound + 1, text =>
    match skipSpacing text with
    | '"' :: quoted => do
      let (name, afterName) ← readString? quoted
      match skipSpacing afterName with
      | ':' :: written => do
        let (value, afterValue) ← readItem written
        match skipSpacing afterValue with
        | ',' :: rest => do
          let (fields, after) ← readFields? readItem bound rest
          return ((name, value) :: fields, after)
        | '}' :: after => some ([(name, value)], after)
        | _ => none
      | _ => none
    | _ => none

/-- The value at the start of a text, spacing before it skipped. The number is the count of arrays
and objects that may still be opened inside one another. -/
def readValue? (budget : Nat) (text : Text) : Option (Json × Text) :=
  match skipSpacing text with
  | '"' :: quoted => (readString? quoted).map fun read => (string read.1, read.2)
  | '[' :: rest =>
    match budget with
    | 0 => none
    | inner + 1 =>
      match skipSpacing rest with
      | ']' :: after => some (array [], after)
      | _ =>
        (readItems? (readValue? inner) rest.length rest).map fun read => (array read.1, read.2)
  | '{' :: rest =>
    match budget with
    | 0 => none
    | inner + 1 =>
      match skipSpacing rest with
      | '}' :: after => some (object [], after)
      | _ =>
        (readFields? (readValue? inner) rest.length rest).map fun read =>
          (ofMap (SortedMap.ofList read.1), read.2)
  | 't' :: rest => (afterWord? "rue".toList rest).map fun after => (bool true, after)
  | 'f' :: rest => (afterWord? "alse".toList rest).map fun after => (bool false, after)
  | 'n' :: rest => (afterWord? "ull".toList rest).map fun after => (null, after)
  | other => readNumber? other

def nestingLimit : Nat := 127

def read? (text : Text) : Option Json :=
  match readValue? nestingLimit text with
  | some (value, after) => if (skipSpacing after).isEmpty then some value else none
  | none => none

end TreeTemplate.Json
