import TreeTemplate.Number.Notation
import TreeTemplate.Proofs.Text.Numeral

/-!
# The characters of numbers

A number is written with decimal digits, points, signs and the letters of an exponent or of the
words for numbers that are not finite.
-/
set_option autoImplicit false

namespace TreeTemplate

def IsNumeric (character : Char) : Prop :=
  Text.IsDigit character ∨ character ∈ ['.', '+', '-', 'e']

theorem Text.isDigit_zero : Text.IsDigit '0' :=
  ⟨0, by decide, by decide⟩

theorem isNumeric_of_mem_digits (decimal : Decimal) (character : Char)
    (member : character ∈ decimal.digits) : IsNumeric character :=
  Or.inl (Text.isDigit_of_mem_numeral decimal.coefficient character member)

theorem isNumeric_of_mem_zeros (count : Nat) (character : Char)
    (member : character ∈ List.replicate count '0') : IsNumeric character := by
  rw [List.eq_of_mem_replicate member]
  exact Or.inl Text.isDigit_zero

theorem isNumeric_of_mem_positional (decimal : Decimal) (character : Char)
    (member : character ∈ decimal.positional) : IsNumeric character := by
  rw [Decimal.positional] at member
  dsimp only at member
  split at member
  · rcases List.mem_append.mp member with isDigit | isZero
    · exact isNumeric_of_mem_digits decimal character isDigit
    · exact isNumeric_of_mem_zeros _ character isZero
  · split at member
    · rcases List.mem_append.mp member with before | behind
      · exact isNumeric_of_mem_digits decimal character (List.mem_of_mem_take before)
      · rcases List.mem_cons.mp behind with isPoint | after
        · exact Or.inr (by simp [isPoint])
        · exact isNumeric_of_mem_digits decimal character (List.mem_of_mem_drop after)
    · rcases List.mem_append.mp member with before | isDigit
      · rcases List.mem_cons.mp before with rfl | later
        · exact Or.inl Text.isDigit_zero
        · rcases List.mem_cons.mp later with isPoint | isZero
          · exact Or.inr (by simp [isPoint])
          · exact isNumeric_of_mem_zeros _ character isZero
      · exact isNumeric_of_mem_digits decimal character isDigit

theorem isNumeric_of_mem_scientific (signed : Bool) (decimal : Decimal) (character : Char)
    (member : character ∈ decimal.scientific signed) : IsNumeric character := by
  have digits := isNumeric_of_mem_digits decimal character
  simp only [Decimal.scientific, List.mem_append, List.mem_cons] at member
  rcases member with (inFraction | isE | inSign) | inExponent
  · split at inFraction
    · rename_i first second rest spelled
      rw [spelled] at digits
      rcases List.mem_cons.mp inFraction with isFirst | later
      · exact digits (by simp [isFirst])
      · rcases List.mem_cons.mp later with isPoint | behind
        · exact Or.inr (by simp [isPoint])
        · exact digits (List.mem_cons_of_mem first behind)
    · exact digits inFraction
  · exact Or.inr (by simp [isE])
  · split at inSign
    · exact Or.inr (by simp [List.mem_singleton.mp inSign])
    · split at inSign
      · exact Or.inr (by simp [List.mem_singleton.mp inSign])
      · cases inSign
  · exact Or.inl (Text.isDigit_of_mem_numeral _ character inExponent)

theorem isNumeric_of_mem_render (style : NumberStyle) (number : Finite) (character : Char)
    (member : character ∈ number.render style) : IsNumeric character := by
  rw [Finite.render] at member
  rcases List.mem_append.mp member with inSign | inMagnitude
  · split at inSign
    · exact Or.inr (by simp [List.mem_singleton.mp inSign])
    · cases inSign
  · split at inMagnitude
    · split at inMagnitude
      · rcases List.mem_append.mp inMagnitude with inDigits | behind
        · exact isNumeric_of_mem_positional _ character inDigits
        · rcases List.mem_cons.mp behind with isPoint | isZero
          · exact Or.inr (by simp [isPoint])
          · rw [List.mem_singleton.mp isZero]
            exact Or.inl Text.isDigit_zero
      · exact isNumeric_of_mem_positional _ character inMagnitude
    · exact isNumeric_of_mem_scientific _ _ character inMagnitude

/-- The text of a number is a word for a number that is not finite, or made of the characters of
finite numbers. -/
theorem mem_number_text (style : NumberStyle) (number : Number) (character : Char)
    (member : character ∈ number.text style) :
    IsNumeric character ∨ character ∈ "-NaInfity".toList := by
  cases number with
  | nan =>
    have words : "NaN".toList ⊆ "-NaInfity".toList := by decide
    exact Or.inr (words member)
  | infinite negative =>
    have words : "-Infinity".toList ⊆ "-NaInfity".toList := by decide
    have unsigned : "Infinity".toList ⊆ "-NaInfity".toList := by decide
    cases negative with
    | false => exact Or.inr (unsigned member)
    | true => exact Or.inr (words member)
  | finite value => exact Or.inl (isNumeric_of_mem_render style value character member)

end TreeTemplate
