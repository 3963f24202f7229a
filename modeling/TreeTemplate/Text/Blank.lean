import TreeTemplate.Text.Basic

/-!
# Blanks

The characters with the Unicode property `White_Space`, and trimming. The property holds of
twenty-five characters: five controls, the space, `U+0085`, the no-break space, the ogham space,
the eleven spaces from `U+2000`, the two separators, and three more.
-/
set_option autoImplicit false

namespace TreeTemplate

/-- The closed ranges of code points with the property `White_Space`. -/
def blankRanges : List (Nat × Nat) :=
  [(0x09, 0x0D), (0x20, 0x20), (0x85, 0x85), (0xA0, 0xA0), (0x1680, 0x1680), (0x2000, 0x200A),
   (0x2028, 0x2029), (0x202F, 0x202F), (0x205F, 0x205F), (0x3000, 0x3000)]

/-- Whether a character has the property `White_Space`. -/
def isBlank (character : Char) : Bool :=
  blankRanges.any fun range => range.1 ≤ character.toNat && character.toNat ≤ range.2

example : blankRanges.foldl (fun count range => count + (range.2 + 1 - range.1)) 0 = 25 := by decide

namespace Text

def trimStart (text : Text) : Text :=
  text.dropWhile isBlank

def trimEnd (text : Text) : Text :=
  (text.reverse.dropWhile isBlank).reverse

def trim (text : Text) : Text :=
  trimEnd (trimStart text)

end Text

end TreeTemplate
