import Mathlib.Algebra.Order.Ring.Nat
import TreeTemplate.Number.Reader
import TreeTemplate.Proofs.Text.Numeral
import TreeTemplate.Proofs.Text.Runs

/-!
# Number literals

A number literal is an optional minus, digits, optionally a point and digits, and optionally an
exponent with an optional minus. Reading one gives the number nearest to the decimal that its digits
and its exponent denote.
-/
set_option autoImplicit false

namespace TreeTemplate

namespace Text

theorem isDigit_eq_true {character : Char} (digit : IsDigit character) :
    character.isDigit = true := by
  obtain ⟨value, small, rfl⟩ := digit
  have check : ∀ value : Fin 10, (Text.digit value).isDigit = true := by decide
  exact check ⟨value, small⟩

theorem spanWhile_run {inClass : Char → Bool} {run rest : Text}
    (inside : ∀ character ∈ run, inClass character = true) (ends : EndsBefore inClass rest) :
    spanWhile inClass (run ++ rest) = (run, rest) :=
  Prod.ext (takeWhile_run inside ends) (dropWhile_run inside ends)

theorem digitValue_zero : digitValue '0' = 0 := by
  decide

theorem valueOfDigits_zeros (digits : Text) (count : Nat) :
    valueOfDigits (digits ++ List.replicate count '0') = valueOfDigits digits * 10 ^ count := by
  induction count with
  | zero => rw [List.replicate_zero, List.append_nil]; exact (Nat.mul_one _).symm
  | succ count ih =>
    rw [List.replicate_succ', ← List.append_assoc, valueOfDigits_append_digit, ih, digitValue_zero]
    exact (Nat.mul_comm _ _).trans (Nat.mul_assoc _ _ _)

theorem valueOfDigits_leading_zeros (count : Nat) (digits : Text) :
    valueOfDigits (List.replicate count '0' ++ digits) = valueOfDigits digits := by
  induction count with
  | zero => rfl
  | succ count ih => exact ih

end Text

structure Digits where
  text : Text
  filled : text ≠ []
  digits : ∀ character ∈ text, Text.IsDigit character

namespace Digits

def numeral (value : Nat) : Digits :=
  ⟨Text.numeral value, Text.numeral_ne_nil value, Text.isDigit_of_mem_numeral value⟩

theorem starts (digits : Digits) : ∃ first others, digits.text = first :: others ∧
    Text.IsDigit first := by
  obtain ⟨first, others, shape⟩ := List.exists_cons_of_ne_nil digits.filled
  exact ⟨first, others, shape, digits.digits first (shape ▸ List.mem_cons_self)⟩

theorem all_isDigit (digits : Digits) : ∀ character ∈ digits.text, character.isDigit = true :=
  fun character member => Text.isDigit_eq_true (digits.digits character member)

end Digits

def minus (negative : Bool) : Text :=
  if negative then ['-'] else []

/-- A number that is written down: an optional minus, digits, the digits behind a point if there is
one, and the sign and the digits of an exponent if there is one. -/
structure NumberLiteral where
  negative : Bool
  whole : Digits
  fraction : Option Digits
  exponent : Option (Bool × Digits)

namespace NumberLiteral

def fractionText (literal : NumberLiteral) : Text :=
  match literal.fraction with
  | none => []
  | some digits => '.' :: digits.text

def exponentText (literal : NumberLiteral) : Text :=
  match literal.exponent with
  | none => []
  | some (negative, digits) => 'e' :: minus negative ++ digits.text

def text (literal : NumberLiteral) : Text :=
  minus literal.negative ++ (literal.whole.text ++ (literal.fractionText ++ literal.exponentText))

def places (literal : NumberLiteral) : Text :=
  match literal.fraction with
  | none => []
  | some digits => digits.text

def exponentValue (literal : NumberLiteral) : Int :=
  match literal.exponent with
  | none => 0
  | some (negative, digits) =>
    let value : Int := Text.valueOfDigits digits.text
    if negative then -value else value

def value (literal : NumberLiteral) : Number :=
  Number.ofDecimal literal.negative (Text.valueOfDigits (literal.whole.text ++ literal.places))
    (literal.exponentValue - literal.places.length)

end NumberLiteral

theorem takeSign_digit {first : Char} (digit : Text.IsDigit first) (rest : Text) :
    takeSign (first :: rest) = (false, first :: rest) := by
  obtain ⟨value, small, rfl⟩ := digit
  have check : ∀ value : Fin 10, Text.digit value ≠ '-' ∧ Text.digit value ≠ '+' := by decide
  obtain ⟨notMinus, notPlus⟩ := check ⟨value, small⟩
  rw [takeSign]
  · exact fun _ isMinus => notMinus (List.cons.inj isMinus).1
  · exact fun _ isPlus => notPlus (List.cons.inj isPlus).1

theorem takeSign_minus (negative : Bool) (digits : Digits) (rest : Text) :
    takeSign (minus negative ++ (digits.text ++ rest)) = (negative, digits.text ++ rest) := by
  cases negative with
  | true => rfl
  | false =>
    obtain ⟨first, others, shape, digit⟩ := digits.starts
    rw [shape]
    exact takeSign_digit digit _

theorem readDecimal?_whole (negative : Bool) (whole : Digits) {rest : Text}
    (ends : Text.EndsBefore Char.isDigit rest) (noPoint : rest.head? ≠ some '.') :
    Number.readDecimal? negative (whole.text ++ rest) = (readExponent? rest).map fun exponent =>
      Number.ofDecimal negative (Text.valueOfDigits whole.text) exponent := by
  have filled : whole.text.isEmpty = false := List.isEmpty_eq_false_iff.mpr whole.filled
  rw [Number.readDecimal?, Text.spanWhile_run whole.all_isDigit ends]
  dsimp only
  split
  · exact absurd rfl noPoint
  · simp [filled]

theorem readDecimal?_point (negative : Bool) (whole fraction : Digits) {rest : Text}
    (ends : Text.EndsBefore Char.isDigit rest) :
    Number.readDecimal? negative (whole.text ++ '.' :: (fraction.text ++ rest)) =
      (readExponent? rest).map fun exponent =>
        Number.ofDecimal negative (Text.valueOfDigits (whole.text ++ fraction.text))
          (exponent - fraction.text.length) := by
  have filled : whole.text.isEmpty = false := List.isEmpty_eq_false_iff.mpr whole.filled
  have point : Text.EndsBefore Char.isDigit ('.' :: (fraction.text ++ rest)) :=
    Text.endsBefore_cons (by decide)
  rw [Number.readDecimal?, Text.spanWhile_run whole.all_isDigit point]
  simp [filled, Text.spanWhile_run fraction.all_isDigit ends]

namespace NumberLiteral
variable (literal : NumberLiteral)

theorem readExponent?_exponentText :
    readExponent? literal.exponentText = some literal.exponentValue := by
  rw [exponentText, exponentValue]
  split
  · rfl
  · rename_i negative digits _
    have signed := takeSign_minus negative digits []
    rw [List.append_nil] at signed
    have filled : digits.text.isEmpty = false := List.isEmpty_eq_false_iff.mpr digits.filled
    have valid : digits.text.all Char.isDigit = true := List.all_eq_true.mpr digits.all_isDigit
    simp only [List.cons_append, readExponent?, decide_true, Bool.true_or, if_true, signed, filled,
      valid, Bool.not_true, Bool.or_self, Bool.false_eq_true, if_false]

theorem endsBefore_exponentText : Text.EndsBefore Char.isDigit literal.exponentText := by
  rw [exponentText]
  split
  · exact Text.endsBefore_nil _
  · exact Text.endsBefore_cons (by decide)

theorem exponentText_without_point : literal.exponentText.head? ≠ some '.' := by
  rw [exponentText]
  cases literal.exponent with
  | none => exact (Option.some_ne_none '.').symm
  | some signed => exact fun same => absurd (Option.some.inj same) (by decide)

theorem readDecimal?_text (negative : Bool) :
    Number.readDecimal? negative
      (literal.whole.text ++ (literal.fractionText ++ literal.exponentText)) =
      some (Number.ofDecimal negative (Text.valueOfDigits (literal.whole.text ++ literal.places))
        (literal.exponentValue - literal.places.length)) := by
  have ends := literal.endsBefore_exponentText
  rw [fractionText, places]
  cases literal.fraction with
  | none =>
    dsimp only
    rw [List.nil_append, readDecimal?_whole negative literal.whole ends
      literal.exponentText_without_point, literal.readExponent?_exponentText, Option.map_some]
    simp
  | some digits =>
    dsimp only
    rw [List.cons_append, readDecimal?_point negative literal.whole digits ends,
      literal.readExponent?_exponentText, Option.map_some]

/-- A literal is read as the number that is nearest to what it denotes. -/
theorem read?_text : Number.read? literal.text = some literal.value := by
  obtain ⟨first, others, shape, digit⟩ := literal.whole.starts
  have lower : first.toLower ≠ 'n' ∧ first.toLower ≠ 'i' := by
    obtain ⟨value, small, rfl⟩ := digit
    have check : ∀ value : Fin 10,
        (Text.digit value).toLower ≠ 'n' ∧ (Text.digit value).toLower ≠ 'i' := by decide
    exact check ⟨value, small⟩
  have noWord {rest word : Text} {letter : Char} (apart : first.toLower ≠ letter)
      (spelled : word.head? = some letter) :
      (literal.whole.text ++ rest).map Char.toLower ≠ word := by
    rintro rfl
    rw [shape] at spelled
    exact apart (Option.some.inj spelled)
  have noWords (rest : Text) : ((literal.whole.text ++ rest).map Char.toLower ≠ "nan".toList) ∧
      ¬(decide ((literal.whole.text ++ rest).map Char.toLower = "inf".toList) ||
        decide ((literal.whole.text ++ rest).map Char.toLower = "infinity".toList)) = true := by
    refine ⟨noWord lower.1 (by decide), ?_⟩
    rw [Bool.or_eq_true, decide_eq_true_iff, decide_eq_true_iff, not_or]
    exact ⟨noWord lower.2 (by decide), noWord lower.2 (by decide)⟩
  rw [Number.read?, text, takeSign_minus]
  dsimp only
  rw [if_neg (noWords _).1, if_neg (noWords _).2, literal.readDecimal?_text, value]

end NumberLiteral
end TreeTemplate
