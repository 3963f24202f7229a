import TreeTemplate.Markup.Declaration
import TreeTemplate.Proofs.Number.Forms
import TreeTemplate.Proofs.Number.Notation

/-!
# Reading numbers back

The text of a finite number is a number literal, in whichever notation it is written. What the literal
denotes is the shortest decimal of the number, with zeros moved between its digits and its exponent,
and so a number is read back from its text, the sign of zero included.
-/
set_option autoImplicit false

namespace TreeTemplate

namespace NumberLiteral

/-- The literal is a notation of the decimal, with some zeros moved behind its digits. -/
def Denotes (literal : NumberLiteral) (decimal : Decimal) : Prop :=
  ∃ count : Nat,
    Text.valueOfDigits (literal.whole.text ++ literal.places) =
      decimal.coefficient * 10 ^ count ∧
    literal.exponentValue - literal.places.length = decimal.exponent - count

end NumberLiteral

namespace Digits

def withZeros (digits : Digits) (count : Nat) : Digits where
  text := digits.text ++ List.replicate count '0'
  filled := List.append_ne_nil_of_left_ne_nil digits.filled _
  digits := by
    intro character member
    rcases List.mem_append.mp member with own | zero
    · exact digits.digits character own
    · rw [List.eq_of_mem_replicate zero]
      exact Text.isDigit_zero

def zero : Digits where
  text := ['0']
  filled := List.cons_ne_nil _ _
  digits := by
    intro character member
    rw [List.mem_singleton.mp member]
    exact Text.isDigit_zero

end Digits

namespace Decimal
variable (negative : Bool) (decimal : Decimal)

def wholeDigits : Digits :=
  (Digits.numeral decimal.coefficient).withZeros decimal.exponent.toNat

theorem valueOfDigits_digits : Text.valueOfDigits decimal.digits = decimal.coefficient :=
  Text.valueOfDigits_numeral _

theorem valueOfDigits_wholeDigits (count : Nat) :
    Text.valueOfDigits (decimal.wholeDigits.text ++ List.replicate count '0') =
      decimal.coefficient * 10 ^ (decimal.exponent.toNat + count) := by
  rw [Text.valueOfDigits_zeros, Nat.pow_add, ← Nat.mul_assoc]
  have value := Text.valueOfDigits_zeros decimal.digits decimal.exponent.toNat
  rw [valueOfDigits_digits] at value
  exact congrArg (· * _) value

theorem positional_of_whole (whole : 0 ≤ decimal.exponent) :
    decimal.positional = decimal.wholeDigits.text := by
  rw [positional]
  dsimp only
  rw [if_pos whole]
  rfl

/-- A whole decimal with one decimal place. -/
theorem exists_literal_pointed (whole : 0 ≤ decimal.exponent) : ∃ literal : NumberLiteral,
    literal.negative = negative ∧
    literal.text = minus negative ++ (decimal.positional ++ ['.', '0']) ∧
    literal.Denotes decimal := by
  refine ⟨⟨negative, decimal.wholeDigits, some .zero, none⟩, rfl, ?_,
    decimal.exponent.toNat + 1, decimal.valueOfDigits_wholeDigits 1, ?_⟩
  · rw [decimal.positional_of_whole whole]
    rfl
  · change 0 - (1 : Int) = _
    omega

theorem exists_literal_positional : ∃ literal : NumberLiteral,
    literal.negative = negative ∧ literal.text = minus negative ++ decimal.positional ∧
    literal.Denotes decimal := by
  by_cases whole : 0 ≤ decimal.exponent
  · refine ⟨⟨negative, decimal.wholeDigits, none, none⟩, rfl, ?_, decimal.exponent.toNat,
      decimal.valueOfDigits_wholeDigits 0, ?_⟩
    · rw [decimal.positional_of_whole whole]
      simp [NumberLiteral.text, NumberLiteral.fractionText, NumberLiteral.exponentText]
    · change 0 - (0 : Int) = _
      omega
  · have digits := Text.isDigit_of_mem_numeral decimal.coefficient
    have places : 0 < (-decimal.exponent).toNat := by omega
    rw [positional]
    dsimp only
    rw [if_neg whole]
    split
    · -- The point stands between two digits.
      rename_i inside
      have filledFront :
          decimal.digits.take (decimal.digits.length - (-decimal.exponent).toNat) ≠ [] := by
        rw [← List.length_pos_iff, List.length_take]
        omega
      have filledBack :
          decimal.digits.drop (decimal.digits.length - (-decimal.exponent).toNat) ≠ [] := by
        rw [← List.length_pos_iff, List.length_drop]
        omega
      let front : Digits := ⟨_, filledFront, fun _ member => digits _ (List.mem_of_mem_take member)⟩
      let back : Digits := ⟨_, filledBack, fun _ member => digits _ (List.mem_of_mem_drop member)⟩
      refine ⟨⟨negative, front, some back, none⟩, rfl, ?_, 0, ?_, ?_⟩
      · simp [NumberLiteral.text, NumberLiteral.fractionText, NumberLiteral.exponentText, front, back]
      · change Text.valueOfDigits (decimal.digits.take _ ++ decimal.digits.drop _) = _
        rw [List.take_append_drop, valueOfDigits_digits, Nat.pow_zero, Nat.mul_one]
      · change 0 - ((decimal.digits.drop _).length : Int) = _
        rw [List.length_drop]
        omega
    · rename_i outside
      let zeros := List.replicate ((-decimal.exponent).toNat - decimal.digits.length) '0'
      have filled : zeros ++ decimal.digits ≠ [] :=
        List.append_ne_nil_of_right_ne_nil _ (Text.numeral_ne_nil _)
      have valid : ∀ character ∈ zeros ++ decimal.digits, Text.IsDigit character := by
        intro character member
        rcases List.mem_append.mp member with zero | own
        · rw [List.eq_of_mem_replicate zero]
          exact Text.isDigit_zero
        · exact digits character own
      refine ⟨⟨negative, .zero, some ⟨_, filled, valid⟩, none⟩, rfl, ?_, 0, ?_, ?_⟩
      · simp [NumberLiteral.text, NumberLiteral.fractionText, NumberLiteral.exponentText,
          Digits.zero, zeros]
      · change Text.valueOfDigits (zeros ++ decimal.digits) = _
        rw [Text.valueOfDigits_leading_zeros, valueOfDigits_digits, Nat.pow_zero, Nat.mul_one]
      · change 0 - ((zeros ++ decimal.digits).length : Int) = _
        rw [List.length_append, List.length_replicate]
        omega

theorem exists_literal_scientific : ∃ literal : NumberLiteral,
    literal.negative = negative ∧ literal.text = minus negative ++ decimal.scientific false ∧
    literal.Denotes decimal := by
  have digits := Text.isDigit_of_mem_numeral decimal.coefficient
  have value := decimal.valueOfDigits_digits
  let exponent := some (decide (decimal.leading < 0), Digits.numeral decimal.leading.natAbs)
  have exponentValue (whole : Digits) (fraction : Option Digits) :
      NumberLiteral.exponentValue ⟨negative, whole, fraction, exponent⟩ = decimal.leading := by
    have absolute : Text.valueOfDigits (Digits.numeral decimal.leading.natAbs).text =
        decimal.leading.natAbs := Text.valueOfDigits_numeral _
    simp only [NumberLiteral.exponentValue, exponent, absolute, decide_eq_true_iff]
    omega
  have sign : (if decimal.leading < 0 then ['-'] else []) = minus (decide (decimal.leading < 0)) := by
    simp [minus]
  rw [scientific]
  rw [if_neg Bool.false_ne_true, sign]
  change (∀ character ∈ decimal.digits, _) at digits
  have leading : decimal.leading = decimal.exponent + (decimal.digits.length - 1 : Nat) := rfl
  split
  · rename_i first second rest shape
    rw [shape] at digits value leading
    let whole : Digits := ⟨[first], List.cons_ne_nil _ _,
      fun character member => digits character (by simp [List.mem_singleton.mp member])⟩
    let fraction : Digits := ⟨second :: rest, List.cons_ne_nil _ _,
      fun character member => digits character (List.mem_cons_of_mem first member)⟩
    refine ⟨⟨negative, whole, some fraction, exponent⟩, rfl, ?_, 0, ?_, ?_⟩
    · simp [NumberLiteral.text, NumberLiteral.fractionText, NumberLiteral.exponentText, whole,
        fraction, exponent, Digits.numeral]
    · rw [Nat.pow_zero, Nat.mul_one]
      exact value
    · rw [exponentValue, leading]
      change _ - ((second :: rest).length : Int) = _
      simp only [List.length_cons]
      omega
  · rename_i single
    have filled : decimal.digits ≠ [] := Text.numeral_ne_nil _
    have short : decimal.digits.length = 1 := by
      rcases shape : decimal.digits with _ | ⟨first, _ | ⟨second, rest⟩⟩
      · exact absurd shape filled
      · rfl
      · exact absurd shape (single first second rest)
    refine ⟨⟨negative, ⟨_, filled, digits⟩, none, exponent⟩, rfl, ?_, 0, ?_, ?_⟩
    · simp [NumberLiteral.text, NumberLiteral.fractionText, NumberLiteral.exponentText, exponent,
        Digits.numeral]
    · rw [Nat.pow_zero, Nat.mul_one]
      change Text.valueOfDigits (decimal.digits ++ []) = _
      rw [List.append_nil, value]
    · rw [exponentValue, leading, short]
      change decimal.exponent + 0 - (0 : Int) = decimal.exponent - 0
      rw [Int.add_zero]

end Decimal

/-! ## Numbers as literals -/

namespace Finite
variable (number : Finite)

/-- The shortest decimal is read as the number, wherever its zeros stand. -/
theorem ofDecimal_shortest_zeros (tie : Tie) (count : Nat) :
    Number.ofDecimal number.negative ((number.shortest tie).coefficient * 10 ^ count)
      ((number.shortest tie).exponent - count) = .finite number := by
  cases visible : number.isZero with
  | true =>
    rw [shortest, visible, if_pos rfl]
    dsimp only
    rw [Nat.zero_mul, Number.ofDecimal_zero, ← eq_zero_of_isZero visible]
  | false =>
    exact Number.ofDecimal_zeros (reads_shortest tie visible) visible count

/-- A finite number is written as a literal that is read as the number. -/
theorem exists_literal (style : NumberStyle) (unsigned : style.signedExponent = false) :
    ∃ literal : NumberLiteral, literal.text = number.render style ∧
      literal.value = .finite number := by
  let decimal := number.shortest style.tie
  have denoted {literal : NumberLiteral} (sign : literal.negative = number.negative)
      (denotes : literal.Denotes decimal) : literal.value = .finite number := by
    obtain ⟨count, digits, exponent⟩ := denotes
    rw [NumberLiteral.value, sign, digits, exponent]
    exact number.ofDecimal_shortest_zeros style.tie count
  rw [render]
  change ∃ literal : NumberLiteral, literal.text = minus number.negative ++ _ ∧ _
  rw [unsigned]
  split
  · split
    · rename_i short
      have whole : 0 ≤ decimal.exponent := of_decide_eq_true (Bool.and_eq_true_iff.mp short).1
      obtain ⟨literal, sign, text, denotes⟩ := decimal.exists_literal_pointed number.negative whole
      exact ⟨literal, text, denoted sign denotes⟩
    · obtain ⟨literal, sign, text, denotes⟩ := decimal.exists_literal_positional number.negative
      exact ⟨literal, text, denoted sign denotes⟩
  · obtain ⟨literal, sign, text, denotes⟩ := decimal.exists_literal_scientific number.negative
    exact ⟨literal, text, denoted sign denotes⟩

end Finite

/-- A number is read back from its text inside a placeholder. -/
theorem Number.read?_scriptText (number : Number) (defined : number ≠ .nan) :
    Number.read? number.scriptText = some number := by
  cases number with
  | nan => exact absurd rfl defined
  | infinite negative => cases negative <;> decide
  | finite value =>
    obtain ⟨literal, text, reads⟩ := value.exists_literal scriptStyle rfl
    rw [scriptText, Number.text, ← text, literal.read?_text, reads]

theorem isBlank_of_isNumeric {character : Char} (numeric : IsNumeric character) :
    isBlank character = false := by
  rcases numeric with ⟨value, small, rfl⟩ | isMark
  · have check : ∀ value : Fin 10, isBlank (Text.digit value) = false := by decide
    exact check ⟨value, small⟩
  · have check : (['.', '+', '-', 'e'].all fun mark => !isBlank mark) = true := by decide
    simpa using List.all_eq_true.mp check character isMark

theorem Number.trim_scriptText (number : Number) : Text.trim number.scriptText = number.scriptText := by
  refine Text.trim_of_no_blank ?_
  intro character member
  rcases mem_number_text scriptStyle number character member with numeric | inWord
  · exact isBlank_of_isNumeric numeric
  · have check : ("-NaInfity".toList.all fun letter => !isBlank letter) = true := by decide
    simpa using List.all_eq_true.mp check character inWord

/-- A number survives being written inside a placeholder and read as the value of an item. The text
of a finite number has the form that its value decides on, and is a literal. -/
theorem Number.survives_text (number : Number) (defined : number ≠ .nan) (name : Text) :
    Markup.typedValue name "number".toList number.scriptText = .ok (.number number) ∧
      ∀ value, number = .finite value →
        number.scriptText = minus value.negative ++ value.scriptForm ∧
          ∃ literal : NumberLiteral, number.scriptText = literal.text := by
  constructor
  · have reads := number.read?_scriptText defined
    simp [Markup.typedValue, number.trim_scriptText, reads]
  · rintro value rfl
    obtain ⟨literal, text, -⟩ := value.exists_literal scriptStyle rfl
    exact ⟨value.render_scriptStyle, literal, text.symm⟩

/-- The negative zero keeps its sign. -/
theorem Number.negative_zero_survives_text :
    let zero : Number := .finite (Finite.zero true)
    zero ≠ .nan ∧ zero.scriptText = "-0.0".toList ∧ zero ≠ .finite (Finite.zero false) ∧
      Markup.typedValue "depth".toList "number".toList "-0.0".toList = .ok (.number zero) ∧
      (Finite.zero true).scriptForm = "0.0".toList ∧
      ∃ literal : NumberLiteral, "-0.0".toList = literal.text := by
  intro zero
  have spelled : zero.scriptText = "-0.0".toList := by decide +kernel
  obtain ⟨reads, written⟩ := Number.survives_text zero (by decide) "depth".toList
  obtain ⟨form, literal⟩ := written _ rfl
  rw [spelled] at reads form literal
  have signed : "-0.0".toList = minus (Finite.zero true).negative ++ "0.0".toList := by decide
  rw [signed] at form
  exact ⟨by decide, spelled, by decide, reads, (List.append_cancel_left form).symm, literal⟩

end TreeTemplate
