import TreeTemplate.Json.Printer
import TreeTemplate.Proofs.Number.Notation

/-!
# Values on one line

The compact text of a JSON value has no line breaks: those in its strings are escaped, and there are
none between its parts.
-/
set_option autoImplicit false

namespace TreeTemplate.Json

theorem isNumeric_ne_lineBreak {character : Char} (isNumeric : IsNumeric character) :
    character ≠ '\n' := by
  rintro rfl
  rcases isNumeric with ⟨digit, small, same⟩ | isMark
  · have digits : ∀ digit : Fin 10, '\n' ≠ Text.digit digit := by decide
    exact digits ⟨digit, small⟩ same
  · revert isMark
    decide

theorem lineBreak_not_mem_integerText (value : Int) : '\n' ∉ integerText value := by
  intro member
  rw [integerText, List.mem_append] at member
  rcases member with inSign | inNumeral
  · revert inSign
    split <;> decide
  · exact isNumeric_ne_lineBreak (Or.inl (Text.isDigit_of_mem_numeral _ _ inNumeral)) rfl

theorem lineBreak_not_mem_escaped (character : Char) : '\n' ∉ escapedCharacter character := by
  have digits : ∀ value : Fin 16, '\n' ≠ Text.hexDigit value := by decide
  unfold escapedCharacter
  split
  · rename_i isMark
    rw [Bool.or_eq_true, decide_eq_true_eq, decide_eq_true_eq] at isMark
    rcases isMark with rfl | rfl <;> decide
  · split
    · decide
    · split
      · decide
      · split
        · decide
        · rename_i other
          split
          · decide
          · split
            · decide
            · split
              · rename_i control
                have high := digits ⟨character.toNat / 16, by omega⟩
                have low := digits ⟨character.toNat % 16, by omega⟩
                simp only at high low
                simp [high, low]
              · simpa using Ne.symm other

theorem lineBreak_not_mem_stringText (value : Text) : '\n' ∉ stringText value := by
  intro member
  simp only [stringText, List.mem_append, List.mem_flatMap, List.mem_singleton] at member
  rcases member with (isQuote | ⟨character, -, inside⟩) | isQuote
  · cases isQuote
  · exact lineBreak_not_mem_escaped character inside
  · cases isQuote

mutual

theorem lineBreak_not_mem_compact (value : Json) : '\n' ∉ value.compact := by
  cases value with
  | null => decide
  | bool value =>
    rw [compact]
    split <;> decide
  | integer value =>
    rw [compact]
    exact lineBreak_not_mem_integerText value
  | float value =>
    rw [compact]
    intro member
    exact isNumeric_ne_lineBreak (isNumeric_of_mem_render jsonStyle value _ member) rfl
  | string value =>
    rw [compact]
    exact lineBreak_not_mem_stringText value
  | array items =>
    have inside := lineBreak_not_mem_compactItems items
    simp [compact, inside]
  | object fields =>
    have inside := lineBreak_not_mem_compactFields fields
    simp [compact, inside]

theorem lineBreak_not_mem_compactItems (items : List Json) : '\n' ∉ compactItems items := by
  cases items with
  | nil => simp [compactItems]
  | cons item rest =>
    have first := lineBreak_not_mem_compact item
    cases rest with
    | nil => simpa [compactItems] using first
    | cons next others =>
      have later := lineBreak_not_mem_compactItems (next :: others)
      simp [compactItems, first, later]

theorem lineBreak_not_mem_compactFields (fields : List (Text × Json)) :
    '\n' ∉ compactFields fields := by
  cases fields with
  | nil => simp [compactFields]
  | cons field rest =>
    obtain ⟨name, value⟩ := field
    have quoted := lineBreak_not_mem_stringText name
    have own := lineBreak_not_mem_compact value
    cases rest with
    | nil => simp [compactFields, quoted, own]
    | cons next others =>
      have later := lineBreak_not_mem_compactFields (next :: others)
      simp [compactFields, quoted, own, later]

end

end TreeTemplate.Json
