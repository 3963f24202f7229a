/-!
# Texts

A text is a list of Unicode characters, so that every pass over one is a structural recursion.
This module holds the operations on texts that several parts of the library share: the order of
code points, search, replacement, joining, and the size of the UTF-8 form.
-/
set_option autoImplicit false

namespace TreeTemplate

/-- A text, one entry per Unicode character. -/
abbrev Text := List Char

namespace Text

/-- The strict order of texts by code point, a shorter text before its extensions. -/
def before : Text → Text → Bool
  | _, [] => false
  | [], _ :: _ => true
  | first :: left, second :: right =>
    if first = second then before left right else decide (first.toNat < second.toNat)

theorem before_irrefl (text : Text) : before text text = false := by
  induction text with
  | nil => rfl
  | cons head tail ih => simp [before, ih]

theorem before_trans (left middle right : Text)
    (first : before left middle = true) (second : before middle right = true) :
    before left right = true := by
  induction left generalizing middle right with
  | nil => cases middle <;> cases right <;> simp_all [before]
  | cons a left ih =>
    cases middle with
    | nil => simp [before] at first
    | cons b middle =>
      cases right with
      | nil => simp [before] at second
      | cons c right =>
        simp only [before] at first second ⊢
        by_cases ab : a = b
        · by_cases bc : b = c
          · subst ab bc
            simp only [if_true] at first second ⊢
            exact ih middle right first second
          · subst ab
            simpa [bc] using second
        · by_cases bc : b = c
          · subst bc
            simpa [ab] using first
          · simp only [ab, bc, if_false, decide_eq_true_eq] at first second
            have apart : a ≠ c := by
              intro same
              subst same
              omega
            simp only [apart, if_false, decide_eq_true_eq]
            omega

theorem before_connected (left right : Text)
    (forward : before left right = false) (backward : before right left = false) :
    left = right := by
  induction left generalizing right with
  | nil => cases right <;> simp_all [before]
  | cons a left ih =>
    cases right with
    | nil => simp [before] at backward
    | cons b right =>
      simp only [before] at forward backward
      by_cases ab : a = b
      · subst ab
        simp only [if_true] at forward backward
        rw [ih right forward backward]
      · have ba : ¬ b = a := fun same => ab same.symm
        simp only [ab, ba, if_false, decide_eq_false_iff_not] at forward backward
        exact absurd (Char.toNat_inj.mp (by omega)) ab

def occurs (needle : Text) : Text → Bool
  | [] => needle.isEmpty
  | head :: rest => needle.isPrefixOf (head :: rest) || occurs needle rest

/-- The text with every occurrence of `needle` replaced, found from left to right without overlap.
The number counts the characters of the last occurrence that are still to be passed over. -/
def replaceFrom (needle replacement : Text) : Nat → Text → Text
  | _, [] => []
  | skipped + 1, _ :: rest => replaceFrom needle replacement skipped rest
  | 0, head :: rest =>
    if needle.isPrefixOf (head :: rest) then
      replacement ++ replaceFrom needle replacement (needle.length - 1) rest
    else head :: replaceFrom needle replacement 0 rest

/-- The text with every occurrence of `needle` replaced, found from left to right without overlap. -/
def replaceAll (needle replacement text : Text) : Text :=
  replaceFrom needle replacement 0 text

def utf8Size (text : Text) : Nat :=
  text.foldr (fun character size => character.utf8Size + size) 0

def digit (value : Nat) : Char :=
  Char.ofNat ('0'.toNat + value)

/-- The decimal numeral of a natural number, without leading zeros. -/
def numeral (value : Nat) : Text :=
  if value < 10 then [digit value] else numeral (value / 10) ++ [digit (value % 10)]
termination_by value

def digitValue (character : Char) : Nat :=
  character.toNat - '0'.toNat

/-- The number that a row of decimal digits denotes; the empty row denotes zero. -/
def valueOfDigits (digits : Text) : Nat :=
  digits.foldl (fun value character => 10 * value + digitValue character) 0

/-- The longest beginning of the text that holds only characters of a class, and the rest. -/
def spanWhile (inClass : Char → Bool) (text : Text) : Text × Text :=
  (text.takeWhile inClass, text.dropWhile inClass)

end Text

end TreeTemplate
