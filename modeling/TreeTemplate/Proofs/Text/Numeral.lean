import TreeTemplate.Text.Basic

/-!
# Decimal numerals

A numeral is a row of decimal digits that denotes its number, so that different numbers have
different numerals.
-/
set_option autoImplicit false

namespace TreeTemplate.Text

def IsDigit (character : Char) : Prop :=
  ∃ value, value < 10 ∧ character = digit value

theorem digitValue_digit (value : Nat) (small : value < 10) : digitValue (digit value) = value := by
  have check : ∀ value : Fin 10, digitValue (digit value) = value := by decide
  exact check ⟨value, small⟩

theorem valueOfDigits_append_digit (digits : Text) (character : Char) :
    valueOfDigits (digits ++ [character]) = 10 * valueOfDigits digits + digitValue character := by
  simp [valueOfDigits]

theorem valueOfDigits_numeral (value : Nat) : valueOfDigits (numeral value) = value := by
  induction value using numeral.induct with
  | case1 value small =>
    rw [numeral, if_pos small]
    have single := valueOfDigits_append_digit [] (digit value)
    rw [List.nil_append, digitValue_digit value small] at single
    simpa [valueOfDigits] using single
  | case2 value large ih =>
    have last : value % 10 < 10 := Nat.mod_lt _ (by omega)
    rw [numeral, if_neg large, valueOfDigits_append_digit, ih, digitValue_digit _ last]
    omega

theorem numeral_injective (left right : Nat) (same : numeral left = numeral right) :
    left = right := by
  rw [← valueOfDigits_numeral left, ← valueOfDigits_numeral right, same]

theorem numeral_ne_nil (value : Nat) : numeral value ≠ [] := by
  rw [numeral]
  split
  · exact List.cons_ne_nil _ _
  · exact List.append_ne_nil_of_right_ne_nil _ (List.cons_ne_nil _ _)

theorem numeral_mul_ten {value : Nat} (positive : 0 < value) :
    numeral (value * 10) = numeral value ++ ['0'] := by
  have large : ¬value * 10 < 10 := by omega
  rw [numeral, if_neg large, Nat.mul_div_cancel _ (by decide : 0 < 10), Nat.mul_mod_left]
  rfl

theorem isDigit_of_mem_numeral (value : Nat) (character : Char) (member : character ∈ numeral value) :
    IsDigit character := by
  induction value using numeral.induct with
  | case1 value small =>
    rw [numeral, if_pos small, List.mem_singleton] at member
    exact ⟨value, small, member⟩
  | case2 value large ih =>
    rw [numeral, if_neg large, List.mem_append, List.mem_singleton] at member
    rcases member with earlier | last
    · exact ih earlier
    · exact ⟨value % 10, Nat.mod_lt _ (by omega), last⟩

end TreeTemplate.Text
