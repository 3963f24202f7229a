import TreeTemplate.Number.Notation
import TreeTemplate.Proofs.Number.Literals
import TreeTemplate.Proofs.Number.Order

/-!
# The form of a number by its value

A style decides on the notation of a number by its shortest decimal. The same decision is made by the
value alone: whether the number is whole, and where it lies between the powers of ten at which a
notation ends. A whole number below `10 ^ 7` is written with its own digits, none of which is lost.
-/
set_option autoImplicit false

namespace TreeTemplate

namespace Text

/-- A number that is multiplied by a power of ten has zeros at the end of its numeral. -/
theorem numeral_zeros {value : Nat} (filled : value ≠ 0) (count : Nat) :
    numeral (value * 10 ^ count) = numeral value ++ List.replicate count '0' := by
  induction count with
  | zero => rw [Nat.pow_zero, Nat.mul_one, List.replicate_zero, List.append_nil]
  | succ count ih =>
    have positive : 0 < value * 10 ^ count :=
      Nat.mul_pos (Nat.pos_of_ne_zero filled) (Nat.pow_pos (by decide))
    rw [Nat.pow_succ, ← Nat.mul_assoc, numeral_mul_ten positive, ih, List.append_assoc,
      List.replicate_succ']

theorem length_numeral_zeros {value : Nat} (filled : value ≠ 0) (count : Nat) :
    (numeral (value * 10 ^ count)).length = (numeral value).length + count := by
  rw [numeral_zeros filled, List.length_append, List.length_replicate]

theorem lt_pow_length_numeral (value : Nat) : value < 10 ^ (numeral value).length := by
  induction value using numeral.induct with
  | case1 value small =>
    rw [numeral, if_pos small]
    exact small
  | case2 value large ih =>
    rw [numeral, if_neg large, List.length_append, List.length_singleton, Nat.pow_succ]
    omega

theorem pow_length_numeral_le {value : Nat} (filled : value ≠ 0) :
    10 ^ ((numeral value).length - 1) ≤ value := by
  induction value using numeral.induct with
  | case1 value small =>
    rw [numeral, if_pos small]
    exact Nat.pos_of_ne_zero filled
  | case2 value large ih =>
    have shorter := ih (by omega)
    obtain ⟨first, others, shape⟩ := List.exists_cons_of_ne_nil (numeral_ne_nil (value / 10))
    rw [numeral, if_neg large, List.length_append, List.length_singleton, Nat.add_sub_cancel]
    rw [shape, List.length_cons, Nat.add_sub_cancel] at shorter
    rw [shape, List.length_cons, Nat.pow_succ]
    omega

theorem length_numeral_eq {value count : Nat} (reached : 10 ^ count ≤ value)
    (below : value < 10 ^ (count + 1)) : (numeral value).length = count + 1 := by
  have filled := ((Nat.pow_pos (by decide : 0 < 10)).trans_le reached).ne'
  have long := (Nat.pow_lt_pow_iff_right (by decide : 1 < 10)).mp
    (Nat.lt_of_le_of_lt reached (lt_pow_length_numeral value))
  have short := (Nat.pow_lt_pow_iff_right (by decide : 1 < 10)).mp
    (Nat.lt_of_le_of_lt (pow_length_numeral_le filled) below)
  omega

end Text

namespace Decimal

/-- Zeros are taken from the end of a coefficient and added to the exponent. -/
theorem withoutZeros_eq (coefficient : Nat) (exponent : Int) : ∃ count : Nat,
    coefficient = (withoutZeros coefficient exponent).coefficient * 10 ^ count ∧
      (withoutZeros coefficient exponent).exponent = exponent + count := by
  induction coefficient, exponent using withoutZeros.induct with
  | case1 coefficient exponent zeros ih =>
    obtain ⟨count, value, moved⟩ := ih
    rw [withoutZeros, if_pos zeros]
    refine ⟨count + 1, ?_, by omega⟩
    have tenth : coefficient = coefficient / 10 * 10 := by omega
    rw [Nat.pow_add, ← Nat.mul_assoc, ← value]
    exact tenth
  | case2 coefficient exponent kept =>
    rw [withoutZeros, if_neg kept]
    exact ⟨0, (Nat.mul_one _).symm, (Int.add_zero _).symm⟩

variable {decimal : Decimal}

theorem length_digits (decimal : Decimal) :
    (decimal.digits.length : Int) = decimal.leading - decimal.exponent + 1 := by
  have filled : 0 < decimal.digits.length := List.length_pos_iff.mpr (Text.numeral_ne_nil _)
  rw [leading]
  omega

/-- A decimal reaches the power of ten of its first digit. -/
theorem pow_le_of_le_leading (filled : decimal.coefficient ≠ 0) {exponent : Int} {places : Nat}
    (reached : exponent ≤ decimal.leading) (enough : 0 ≤ decimal.exponent + places) :
    10 ^ (exponent + places).toNat ≤
      decimal.coefficient * 10 ^ (decimal.exponent + places).toNat := by
  have length := decimal.length_digits
  calc 10 ^ (exponent + places).toNat
      ≤ 10 ^ (decimal.digits.length - 1 + (decimal.exponent + places).toNat) :=
        Nat.pow_le_pow_right (by decide) (by omega)
    _ = 10 ^ (decimal.digits.length - 1) * 10 ^ (decimal.exponent + places).toNat :=
        Nat.pow_add ..
    _ ≤ _ := Nat.mul_le_mul_right _ (Text.pow_length_numeral_le filled)

/-- A decimal stays below the next power of ten. -/
theorem lt_pow_of_leading_lt {exponent : Int} {places : Nat}
    (below : decimal.leading < exponent) (enough : 0 ≤ decimal.exponent + places) :
    decimal.coefficient * 10 ^ (decimal.exponent + places).toNat <
      10 ^ (exponent + places).toNat := by
  have length := decimal.length_digits
  calc decimal.coefficient * 10 ^ (decimal.exponent + places).toNat
      < 10 ^ decimal.digits.length * 10 ^ (decimal.exponent + places).toNat :=
        Nat.mul_lt_mul_of_pos_right (Text.lt_pow_length_numeral _) (Nat.pow_pos (by decide))
    _ = 10 ^ (decimal.digits.length + (decimal.exponent + places).toNat) := (Nat.pow_add ..).symm
    _ ≤ _ := Nat.pow_le_pow_right (by decide) (by omega)

theorem positional_whole (filled : decimal.coefficient ≠ 0) (whole : 0 ≤ decimal.exponent) :
    decimal.positional =
      Text.numeral (decimal.coefficient * 10 ^ decimal.exponent.toNat) := by
  rw [positional]
  dsimp only
  rw [if_pos whole, Text.numeral_zeros filled]
  rfl

end Decimal

namespace Finite
variable {number : Finite} {tie : Tie}

theorem reads_shortest (tie : Tie) (visible : number.isZero = false) :
    Number.ofDecimal number.negative (number.shortest tie).coefficient
      (number.shortest tie).exponent = .finite number :=
  (isReadFrom_iff _).mp (isReadFrom_shortest tie visible)

theorem filled_shortest (tie : Tie) (visible : number.isZero = false) :
    (number.shortest tie).coefficient ≠ 0 :=
  (Number.isWithin_of_ofDecimal (reads_shortest tie visible) visible).filled

def IsPower (tie : Tie) (number : Finite) (exponent : Int) : Prop :=
  number.isZero = false ∧
    ∀ negative, (number.withSign negative).shortest tie = ⟨1, exponent⟩

theorem firstDigitExponent_eq_length (number : Finite) : number.firstDigitExponent =
    ((Text.numeral (number.grains * 10 ^ 400 / grainsInOne)).length : Int) - 401 := by
  have shift : Nat.pow 10 400 = 10 ^ 400 := by decide +kernel
  rw [firstDigitExponent, shift]

theorem firstDigitExponent_eq {count : Nat}
    (reached : 10 ^ count ≤ number.grains * 10 ^ 400 / grainsInOne)
    (below : number.grains * 10 ^ 400 / grainsInOne < 10 ^ (count + 1)) :
    number.firstDigitExponent = count - 400 := by
  rw [firstDigitExponent_eq_length, Text.length_numeral_eq reached below]
  omega

/-- A number is a power of ten if it has the exponent of that power, for which the search finds it. -/
theorem isPower_of_first (visible : number.isZero = false) (count : Nat) {exponent : Int}
    (first : exponent = count - 400)
    (reached : 10 ^ count ≤ number.grains * 10 ^ 400 / grainsInOne)
    (below : number.grains * 10 ^ 400 / grainsInOne < 10 ^ (count + 1))
    (nearest : ∀ negative,
      (number.withSign negative).nearestMultiple? tie exponent = some ⟨1, exponent⟩) :
    number.IsPower tie exponent := by
  refine ⟨visible, ?_⟩
  intro negative
  have own : (number.withSign negative).firstDigitExponent - ((0 : Nat) : Int) = exponent := by
    rw [first, ← firstDigitExponent_eq reached below]
    exact Int.sub_zero _
  have signedVisible : (number.withSign negative).isZero = false := visible
  rw [shortest_eq tie signedVisible, searchedExponents, List.range_succ_eq_map, List.map_cons,
    List.findSome?_cons, own, nearest]
  rfl

/-- The first digit of a shortest decimal stands at or above the place of a power of ten if and only if
the number is at least that power, as it is read. -/
theorem le_leading_iff (visible : number.isZero = false) {landmark : Finite} {exponent : Int}
    (isPower : landmark.IsPower tie exponent) :
    exponent ≤ (number.shortest tie).leading ↔ landmark.grains ≤ number.grains := by
  obtain ⟨landmarkVisible, shortest⟩ := isPower
  have reads := reads_shortest tie visible
  have landmarkReads : Number.ofDecimal number.negative 1 exponent =
      .finite (landmark.withSign number.negative) := by
    have signedVisible : (landmark.withSign number.negative).isZero = false := landmarkVisible
    have reads := reads_shortest tie signedVisible
    rw [shortest] at reads
    exact reads
  let places := (number.shortest tie).exponent.natAbs + exponent.natAbs
  have enough : 0 ≤ (number.shortest tie).exponent + places := by omega
  have landmarkEnough : 0 ≤ exponent + places := by omega
  change _ ↔ (landmark.withSign number.negative).grains ≤ number.grains
  constructor
  · intro reached
    refine Number.grains_le_of_ordered landmarkReads reads landmarkVisible visible landmarkEnough
      enough ?_
    rw [Nat.one_mul]
    exact Decimal.pow_le_of_le_leading (filled_shortest tie visible) reached enough
  · -- A smaller decimal would be that of the landmark itself.
    intro above
    by_contra below
    have ordered : number.grains ≤ (landmark.withSign number.negative).grains := by
      refine Number.grains_le_of_ordered reads landmarkReads visible landmarkVisible enough
        landmarkEnough ?_
      rw [Nat.one_mul]
      exact (Decimal.lt_pow_of_leading_lt (Int.not_le.mp below) enough).le
    have same : number = landmark.withSign number.negative :=
      eq_of_grains rfl (Nat.le_antisymm ordered above)
    have own := shortest number.negative
    rw [← same] at own
    rw [own] at below
    have leading : (⟨1, exponent⟩ : Decimal).leading = exponent := by
      simp [Decimal.leading, Decimal.digits, Text.numeral]
    exact below leading.ge

/-- A whole number is among its own multiples of one, and is found there. -/
theorem isSome_nearestMultiple (tie : Tie) {value : Nat} (filled : value ≠ 0)
    (short : value < 10 ^ 17) (whole : number.grains = value * grainsInOne) :
    (number.nearestMultiple? tie 0).isSome = true := by
  obtain ⟨count, digits, exponent⟩ := Decimal.withoutZeros_eq value 0
  have coefficient : (Decimal.withoutZeros value 0).coefficient ≠ 0 := by
    intro nothing
    rw [nothing, Nat.zero_mul] at digits
    exact filled digits
  have high : count < 17 := by
    refine (Nat.pow_lt_pow_iff_right (by decide : 1 < 10)).mp (Nat.lt_of_le_of_lt ?_ short)
    rw [digits]
    exact Nat.le_mul_of_pos_left _ (Nat.pos_of_ne_zero coefficient)
  have quotient : number.grains / (grainsInOne * 10 ^ (0 : Int).toNat) = value := by
    rw [whole, Int.toNat_zero, Nat.pow_zero, Nat.mul_one,
      Nat.mul_div_cancel _ Number.grainsInOne_pos]
  have reads : number.isReadFrom (Decimal.withoutZeros value 0) = true := by
    rw [isReadFrom_iff, Number.ofDecimal_whole number.negative coefficient (by omega) (by omega),
      exponent, Int.zero_add, Int.toNat_natCast, ← digits, ← whole, Number.ofQuotient_grains]
  rw [nearestMultiple?, overPower, if_pos (Int.le_refl 0), Nat.pow_eq]
  dsimp only
  rw [quotient, reads]
  split
  · split <;> rfl
  · rfl
  · rfl
  · contradiction

theorem descending_searchedExponents (number : Finite) :
    number.searchedExponents.Pairwise (· > ·) := by
  refine List.pairwise_map.mpr (List.pairwise_lt_range.imp ?_)
  intro fewer more ordered
  omega

/-- The multiples of one are searched for a whole number of up to seventeen digits. -/
theorem zero_mem_searchedExponents {value : Nat} (filled : value ≠ 0)
    (short : value < 10 ^ 17) (whole : number.grains = value * grainsInOne) :
    0 ∈ number.searchedExponents := by
  have first : number.firstDigitExponent = (Text.numeral value).length - 1 := by
    rw [firstDigitExponent_eq_length, whole, Nat.mul_right_comm,
      Nat.mul_div_cancel _ Number.grainsInOne_pos, Text.length_numeral_zeros filled]
    omega
  have digits : (Text.numeral value).length - 1 < 17 :=
    (Nat.pow_lt_pow_iff_right (by decide : 1 < 10)).mp
      (Nat.lt_of_le_of_lt (Text.pow_length_numeral_le filled) short)
  have length : 0 < (Text.numeral value).length :=
    List.length_pos_iff.mpr (Text.numeral_ne_nil value)
  refine List.mem_map.mpr ⟨(Text.numeral value).length - 1, List.mem_range.mpr digits, ?_⟩
  omega

/-- The shortest decimal of a whole number is whole, as the search for it goes from greater powers of
ten to smaller ones. -/
theorem exponent_shortest_whole (visible : number.isZero = false) {value : Nat}
    (filled : value ≠ 0) (short : value < 10 ^ 17)
    (whole : number.grains = value * grainsInOne) : 0 ≤ (number.shortest tie).exponent := by
  have descending := number.descending_searchedExponents
  have ones := zero_mem_searchedExponents filled short whole
  have found := isSome_nearestMultiple tie filled short whole
  rw [shortest_eq tie visible]
  cases search : number.searchedExponents.findSome? (number.nearestMultiple? tie) with
  | none =>
    rw [List.findSome?_eq_none_iff.mp search 0 ones] at found
    cases found
  | some decimal =>
    obtain ⟨before, exponent, behind, split, nearest, missed⟩ :=
      List.findSome?_eq_some_iff.mp search
    rw [split] at descending ones
    have nonnegative : 0 ≤ exponent := by
      rcases List.mem_append.mp ones with earlier | later
      · rw [missed 0 earlier] at found
        cases found
      · rcases List.mem_cons.mp later with here | after
        · exact here.le
        · exact ((List.pairwise_cons.mp (List.pairwise_append.mp descending).2.1).1 0 after).le
    obtain ⟨coefficient, rfl⟩ := (of_nearestMultiple nearest).2
    obtain ⟨count, -, moved⟩ := Decimal.withoutZeros_eq coefficient exponent
    rw [Option.getD_some, moved]
    omega

/-- A shortest decimal that is whole and short is the number itself. -/
theorem grains_of_whole_shortest (visible : number.isZero = false)
    (whole : 0 ≤ (number.shortest tie).exponent) (short : (number.shortest tie).leading < 15) :
    number.grains = (number.shortest tie).coefficient *
      10 ^ (number.shortest tie).exponent.toNat * grainsInOne := by
  have filled := filled_shortest tie visible
  have length := (number.shortest tie).length_digits
  have reads := reads_shortest tie visible
  have below : (number.shortest tie).coefficient * 10 ^ (number.shortest tie).exponent.toNat <
      10 ^ 15 := by
    have places : 0 ≤ (number.shortest tie).exponent + (0 : Nat) := by omega
    have below := Decimal.lt_pow_of_leading_lt short places
    rw [Int.natCast_zero, Int.add_zero] at below
    exact below
  rw [Number.ofDecimal_whole _ filled whole (by omega)] at reads
  rw [Number.grains_ofQuotient reads]
  exact Number.roundedGrains_whole
    (Nat.mul_ne_zero filled (Nat.pow_pos (by decide)).ne') (below.trans (by decide))

end Finite

/-! ## The forms -/

def thousandth : Finite :=
  ⟨false, 0x10624DD2F1A9FC, 1012, by decide⟩

example : Number.ofDecimal false 1 (-3) = .finite thousandth := by decide +kernel

def tenMillion : Finite :=
  ⟨false, 5368709120000000, 1045, by decide⟩

def sextillion : Finite :=
  ⟨false, 7629394531250000, 1091, by decide⟩

theorem isPower_thousandth : thousandth.IsPower .up (-3) :=
  Finite.isPower_of_first (by decide) 397 (by decide) (by decide +kernel) (by decide +kernel)
    (by decide +kernel)

theorem isPower_tenMillion : tenMillion.IsPower .up 7 :=
  Finite.isPower_of_first (by decide) 407 (by decide) (by decide +kernel) (by decide +kernel)
    (by decide +kernel)

theorem isPower_sextillion : sextillion.IsPower .up 21 :=
  Finite.isPower_of_first (by decide) 421 (by decide) (by decide +kernel) (by decide +kernel)
    (by decide +kernel)

theorem grains_tenMillion : tenMillion.grains = 10 ^ 7 * grainsInOne := by
  decide +kernel

theorem grains_sextillion : sextillion.grains = 10 ^ 21 * grainsInOne := by
  decide +kernel

namespace Finite
variable (number : Finite)

/-- The text of a magnitude inside a placeholder: all digits and one decimal place if it is whole and
below `10 ^ 7`, the shortest decimal without an exponent from `10 ^ -3` up to `10 ^ 21`, with an
exponent otherwise. -/
def scriptForm : Text :=
  if grainsInOne ∣ number.grains ∧ number.grains < 10 ^ 7 * grainsInOne then
    Text.numeral (number.grains / grainsInOne) ++ ['.', '0']
  else if thousandth.grains ≤ number.grains ∧ number.grains < 10 ^ 21 * grainsInOne then
    (number.shortest .up).positional
  else (number.shortest .up).scientific false

variable {number}

theorem whole_shortest_iff (visible : number.isZero = false) :
    (0 ≤ (number.shortest .up).exponent ∧ (number.shortest .up).leading ≤ 6) ↔
      (grainsInOne ∣ number.grains ∧ number.grains < 10 ^ 7 * grainsInOne) := by
  have point := le_leading_iff visible isPower_tenMillion
  rw [grains_tenMillion] at point
  constructor
  · rintro ⟨whole, short⟩
    refine ⟨?_, by omega⟩
    rw [grains_of_whole_shortest visible whole (by omega)]
    exact Nat.dvd_mul_left ..
  · rintro ⟨⟨value, whole⟩, short⟩
    rw [Nat.mul_comm] at whole
    have filled : value ≠ 0 := by
      rintro rfl
      rw [grains, Nat.zero_mul] at whole
      rcases Nat.mul_eq_zero.mp whole with nothing | nothing
      · exact of_decide_eq_false visible nothing
      · exact (Nat.pow_pos (by decide)).ne' nothing
    have small : value < 10 ^ 17 := by
      rw [whole] at short
      exact (Nat.lt_of_mul_lt_mul_right short).trans (by decide)
    exact ⟨exponent_shortest_whole visible filled small whole, by omega⟩

theorem positional_shortest_whole (visible : number.isZero = false)
    (whole : 0 ≤ (number.shortest .up).exponent) (short : (number.shortest .up).leading ≤ 6) :
    (number.shortest .up).positional = Text.numeral (number.grains / grainsInOne) := by
  rw [Decimal.positional_whole (filled_shortest .up visible) whole,
    grains_of_whole_shortest visible whole (by omega),
    Nat.mul_div_cancel _ Number.grainsInOne_pos]

/-- The decisions of the style by the shortest decimal are decisions by the value of the number. -/
theorem render_scriptStyle (number : Finite) :
    number.render scriptStyle = minus number.negative ++ number.scriptForm := by
  cases visible : number.isZero with
  | true =>
    rw [eq_zero_of_isZero visible]
    cases number.negative <;> decide +kernel
  | false =>
    have low := le_leading_iff visible isPower_thousandth
    have high := le_leading_iff visible isPower_sextillion
    have whole := whole_shortest_iff visible
    have length := (number.shortest .up).length_digits
    rw [grains_sextillion] at high
    rw [render]
    change minus number.negative ++ (if
        ((-3 : Int) ≤ (number.shortest .up).leading && (number.shortest .up).leading ≤ 20) = true
      then if (0 ≤ (number.shortest .up).exponent && (number.shortest .up).leading ≤ 6) = true
        then (number.shortest .up).positional ++ ['.', '0']
        else (number.shortest .up).positional
      else (number.shortest .up).scientific false) = _
    simp only [Bool.and_eq_true, decide_eq_true_iff]
    rw [scriptForm]
    by_cases short : 0 ≤ (number.shortest .up).exponent ∧ (number.shortest .up).leading ≤ 6
    · rw [if_pos (whole.mp short), if_pos (by omega), if_pos short,
        positional_shortest_whole visible short.1 short.2]
    · rw [if_neg (mt whole.mpr short), if_neg short]
      by_cases positional : -3 ≤ (number.shortest .up).leading ∧ (number.shortest .up).leading ≤ 20
      · rw [if_pos positional, if_pos (by omega)]
      · rw [if_neg positional, if_neg (by omega)]

end Finite
end TreeTemplate
