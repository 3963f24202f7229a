import TreeTemplate.Proofs.Template.Delimited

/-!
# Arrays and objects in placeholders

An array or an object stands in a placeholder as its compact text, which no validation has seen.
JSON puts a backslash before a double quote in a string. The scanner of placeholders gives a
backslash between quotes no meaning, so that there the quoted run ends at this very quote. The
placeholder is closed exactly if the text closes what it opens when it is read in this way. Strings
and keys can be judged one by one: one is harmless if its double quotes come in pairs, and nothing
between the two of a pair opens or closes anything.
-/
set_option autoImplicit false

namespace TreeTemplate

open Placeholder

namespace Json

def IsComposite : Json → Prop
  | .array _ => True
  | .object _ => True
  | _ => False

mutual

/-- The strings in a value and the keys of its objects, in the order of its text. -/
def strings : Json → List Text
  | .string value => [value]
  | .array items => stringsOfItems items
  | .object fields => stringsOfFields fields
  | _ => []

def stringsOfItems : List Json → List Text
  | [] => []
  | item :: rest => item.strings ++ stringsOfItems rest

def stringsOfFields : List (Text × Json) → List Text
  | [] => []
  | (name, value) :: rest => name :: (value.strings ++ stringsOfFields rest)

end

/-- The double quotes of the text come in pairs, and what stands between the two of a pair can stand
in an expression as it is. The flag says that the first of a pair has been read. -/
def PairsQuotes (unpaired : Bool) : Text → Prop
  | [] => unpaired = false
  | character :: rest =>
    if character = '\x22' then PairsQuotes (!unpaired) rest
    else (unpaired = true → IsBare character) ∧ PairsQuotes unpaired rest

instance decidablePairsQuotes :
    ∀ (unpaired : Bool) (text : Text), Decidable (PairsQuotes unpaired text)
  | unpaired, [] => inferInstanceAs (Decidable (unpaired = false))
  | unpaired, character :: rest =>
    have := decidablePairsQuotes (!unpaired) rest
    have := decidablePairsQuotes unpaired rest
    inferInstanceAs (Decidable (if character = '\x22' then PairsQuotes (!unpaired) rest
      else (unpaired = true → IsBare character) ∧ PairsQuotes unpaired rest))

theorem pairsQuotes_of_not_mem {text : Text} (absent : '\x22' ∉ text) : PairsQuotes false text := by
  induction text with
  | nil => rfl
  | cons character rest ih =>
    rw [List.mem_cons, not_or] at absent
    rw [PairsQuotes, if_neg (Ne.symm absent.1)]
    exact ⟨fun impossible => Bool.noConfusion impossible, ih absent.2⟩

def escapeMarks : Text :=
  "\\bfnrtu0123456789abcdef".toList

theorem hexDigit_mem_escapeMarks {value : Nat} (small : value < 16) :
    Text.hexDigit value ∈ escapeMarks := by
  have check : ∀ digit : Fin 16, Text.hexDigit digit ∈ escapeMarks := by decide
  exact check ⟨value, small⟩

/-- A character is written with itself and the marks of an escape. -/
theorem escapedCharacter_subset (character : Char) :
    escapedCharacter character ⊆ character :: escapeMarks := by
  have backslash : '\\' ∈ escapeMarks := by decide
  rw [escapedCharacter]
  split
  · simp [backslash]
  split
  · exact List.subset_cons_of_subset _ (by decide)
  split
  · exact List.subset_cons_of_subset _ (by decide)
  split
  · exact List.subset_cons_of_subset _ (by decide)
  split
  · exact List.subset_cons_of_subset _ (by decide)
  split
  · exact List.subset_cons_of_subset _ (by decide)
  split
  · have high := hexDigit_mem_escapeMarks (by omega : character.toNat / 16 < 16)
    have low := hexDigit_mem_escapeMarks (by omega : character.toNat % 16 < 16)
    have front : ['\\', 'u', '0', '0'] ⊆ escapeMarks := by decide
    refine List.subset_cons_of_subset _ (List.append_subset.mpr ⟨front, ?_⟩)
    simp [high, low]
  · simp

theorem not_mem_escaped {mark character : Char} (other : character ≠ mark)
    (noMark : mark ∉ escapeMarks) : mark ∉ escapedCharacter character := by
  intro member
  rcases List.mem_cons.mp (escapedCharacter_subset character member) with same | isMark
  · exact other same.symm
  · exact noMark isMark

theorem isBareText_escaped {character : Char} (isBare : IsBare character) :
    IsBareText (escapedCharacter character) := by
  have marks : IsBareText escapeMarks := by decide
  have all : IsBareText (character :: escapeMarks) := List.forall_mem_cons.mpr ⟨isBare, marks⟩
  exact fun mark member => all mark (escapedCharacter_subset character member)

/-- How the scanner reads the rest of a string: in the quoted run of which `run` has been read, or
behind the end of that run. The induction is on the string, for both at once, since each double quote
of the string leads from the one to the other. -/
theorem derives_escaped (value : Text) :
    (PairsQuotes false value → ∀ run, '\x22' ∉ run →
      Derives .expression ('\x22' :: (run ++ (value.flatMap escapedCharacter ++ ['\x22'])))) ∧
    (PairsQuotes true value →
      Derives .expression (value.flatMap escapedCharacter ++ ['\x22'])) := by
  induction value with
  | nil =>
    constructor
    · intro _ run inside
      exact Derives.quoted (Or.inl rfl) inside (Derives.empty _)
    · intro impossible
      cases impossible
  | cons character rest ih =>
    obtain ⟨within, behind⟩ := ih
    rw [PairsQuotes, PairsQuotes, List.flatMap_cons]
    by_cases isQuote : character = '\x22'
    · subst isQuote
      rw [if_pos rfl, if_pos rfl, show escapedCharacter '\x22' = ['\\', '\x22'] from rfl]
      constructor
      · intro paired run inside
        have ended : '\x22' ∉ run ++ ['\\'] := by simp [inside]
        have whole := Derives.quoted (Or.inl rfl) ended (behind paired)
        simpa using whole
      · intro paired
        exact Derives.bare (by decide) (within paired [] List.not_mem_nil)
    · rw [if_neg isQuote, if_neg isQuote]
      constructor
      · intro paired run inside
        have longer : '\x22' ∉ run ++ escapedCharacter character := by
          simp [inside, not_mem_escaped isQuote (by decide)]
        have whole := within paired.2 (run ++ escapedCharacter character) longer
        simpa using whole
      · intro paired
        have first := derives_bare (isBareText_escaped (paired.1 rfl))
        rw [List.append_assoc]
        exact derives_append first (behind paired.2)

theorem derives_stringText {value : Text} (paired : PairsQuotes false value) :
    Derives .expression (stringText value) := by
  have whole := (derives_escaped value).1 paired [] List.not_mem_nil
  simpa [stringText] using whole

theorem isBareText_integerText (value : Int) : IsBareText (integerText value) := by
  refine isBareText_append ?_ (isBareText_numeral value.natAbs)
  split <;> decide

theorem isBareText_render (style : NumberStyle) (number : Finite) :
    IsBareText (number.render style) := by
  have marks : IsBareText ['.', '+', '-', 'e'] := by decide
  intro character member
  rcases isNumeric_of_mem_render style number character member with isDigit | isMark
  · exact isBare_of_isDigit isDigit
  · exact marks character isMark

theorem derives_separated {left right : Text} (first : Derives .expression left)
    {separator : Char} (isBare : IsBare separator) (second : Derives .expression right) :
    Derives .expression (left ++ separator :: right) :=
  derives_append first (Derives.bare isBare second)

mutual

/-- The compact text of a value is an expression if each of its strings and keys is one. -/
theorem derives_compact (value : Json)
    (inside : ∀ text ∈ value.strings, Derives .expression (stringText text)) :
    Derives .expression value.compact := by
  cases value with
  | null => exact derives_bare (by decide)
  | bool flag => cases flag <;> exact derives_bare (by decide)
  | integer quantity =>
    rw [compact]
    exact derives_bare (isBareText_integerText quantity)
  | float quantity =>
    rw [compact]
    exact derives_bare (isBareText_render jsonStyle quantity)
  | string content =>
    rw [compact]
    exact inside content (by simp [strings])
  | array items =>
    rw [strings] at inside
    have list := derives_compactItems items inside
    rw [compact]
    exact Derives.bare (by decide) (derives_separated list (by decide) (Derives.empty _))
  | object fields =>
    rw [strings] at inside
    have list := derives_compactFields fields inside
    rw [compact]
    exact Derives.braces list (Derives.empty _)

theorem derives_compactItems (items : List Json)
    (inside : ∀ text ∈ stringsOfItems items, Derives .expression (stringText text)) :
    Derives .expression (compactItems items) := by
  cases items with
  | nil =>
    rw [compactItems]
    exact Derives.empty _
  | cons item rest =>
    rw [stringsOfItems, List.forall_mem_append] at inside
    have first := derives_compact item inside.1
    cases rest with
    | nil =>
      rw [compactItems]
      exact first
    | cons next others =>
      rw [compactItems]
      exact derives_separated first (by decide) (derives_compactItems (next :: others) inside.2)

theorem derives_compactFields (fields : List (Text × Json))
    (inside : ∀ text ∈ stringsOfFields fields, Derives .expression (stringText text)) :
    Derives .expression (compactFields fields) := by
  cases fields with
  | nil =>
    rw [compactFields]
    exact Derives.empty _
  | cons field rest =>
    obtain ⟨name, value⟩ := field
    rw [stringsOfFields, List.forall_mem_cons, List.forall_mem_append] at inside
    have own := derives_compact value inside.2.1
    have first := derives_separated inside.1 (by decide : IsBare ':') own
    cases rest with
    | nil =>
      rw [compactFields]
      exact first
    | cons next others =>
      have later := derives_compactFields (next :: others) inside.2.2
      have whole := derives_separated first (by decide : IsBare ',') later
      rw [compactFields]
      simpa using whole

end

def IsFence (character : Char) : Prop :=
  IsQuote character ∨ character = '\x60'

theorem count_bareText {fence : Char} (isFence : IsFence fence) {text : Text}
    (bare : IsBareText text) : text.count fence = 0 := by
  rw [List.count_eq_zero]
  intro member
  obtain ⟨double, single, backtick, -⟩ := bare fence member
  rcases isFence with (isDouble | isSingle) | isBacktick
  · exact double isDouble
  · exact single isSingle
  · exact backtick isBacktick

theorem count_escapedCharacter {fence : Char} (isFence : IsFence fence) (character : Char) :
    (escapedCharacter character).count fence = [character].count fence := by
  by_cases same : character = fence
  · subst same
    rcases isFence with (rfl | rfl) | rfl <;> decide
  · have noMark : fence ∉ escapeMarks := by
      rcases isFence with (rfl | rfl) | rfl <;> decide
    rw [List.count_eq_zero.mpr (not_mem_escaped same noMark), List.count_eq_zero.mpr]
    simpa using Ne.symm same

/-- A string has the quotes and backticks that it holds, and two double quotes around them. -/
theorem count_stringText {fence : Char} (isFence : IsFence fence) (value : Text) :
    (stringText value).count fence = value.count fence + 2 * ['\x22'].count fence := by
  have inside : (value.flatMap escapedCharacter).count fence = value.count fence := by
    induction value with
    | nil => rfl
    | cons character rest ih =>
      rw [List.flatMap_cons, List.count_append, count_escapedCharacter isFence, ih,
        ← List.count_append, List.singleton_append]
  rw [stringText, List.count_append, List.count_append, inside]
  omega

def countIn (fence : Char) (texts : List Text) : Nat :=
  (texts.map fun text => (stringText text).count fence).sum

theorem countIn_append (fence : Char) (left right : List Text) :
    countIn fence (left ++ right) = countIn fence left + countIn fence right := by
  rw [countIn, List.map_append, List.sum_append]
  rfl

theorem countIn_cons (fence : Char) (text : Text) (rest : List Text) :
    countIn fence (text :: rest) = (stringText text).count fence + countIn fence rest := by
  rw [countIn, List.map_cons, List.sum_cons]
  rfl

mutual

/-- All quotes and backticks of a compact text belong to its strings and keys. -/
theorem count_compact {fence : Char} (isFence : IsFence fence) (value : Json) :
    value.compact.count fence = countIn fence value.strings := by
  have apart : IsBareText ['[', ']'] ∧ fence ≠ '{' ∧ fence ≠ '}' := by
    rcases isFence with (rfl | rfl) | rfl <;> decide
  obtain ⟨brackets, opening, closing⟩ := apart
  have noBrackets := count_bareText isFence brackets
  cases value with
  | null => exact count_bareText isFence (by decide)
  | bool flag => cases flag <;> exact count_bareText isFence (by decide)
  | integer quantity =>
    rw [compact]
    exact count_bareText isFence (isBareText_integerText quantity)
  | float quantity =>
    rw [compact]
    exact count_bareText isFence (isBareText_render jsonStyle quantity)
  | string content => simp [compact, strings, countIn]
  | array items =>
    have list := count_compactItems isFence items
    have whole : (compact (array items)).count fence =
        ['[', ']'].count fence + (compactItems items).count fence := by
      simp only [compact, List.count_cons, List.count_append, List.count_nil]
      omega
    rw [whole, noBrackets, list, strings, Nat.zero_add]
  | object fields =>
    rw [compact, strings, List.count_cons_of_ne (Ne.symm opening), List.count_append,
      List.count_cons_of_ne (Ne.symm closing), count_compactFields isFence fields]
    rfl

theorem count_compactItems {fence : Char} (isFence : IsFence fence) (items : List Json) :
    (compactItems items).count fence = countIn fence (stringsOfItems items) := by
  have comma : ',' ≠ fence := by
    rcases isFence with (rfl | rfl) | rfl <;> decide
  cases items with
  | nil => rfl
  | cons item rest =>
    have first := count_compact isFence item
    rw [stringsOfItems, countIn_append, ← first]
    cases rest with
    | nil => rfl
    | cons next others =>
      rw [compactItems, List.count_append, List.count_cons_of_ne comma,
        count_compactItems isFence (next :: others)]

theorem count_compactFields {fence : Char} (isFence : IsFence fence) (fields : List (Text × Json)) :
    (compactFields fields).count fence = countIn fence (stringsOfFields fields) := by
  have apart : ',' ≠ fence ∧ ':' ≠ fence := by
    rcases isFence with (rfl | rfl) | rfl <;> decide
  obtain ⟨comma, colon⟩ := apart
  cases fields with
  | nil => rfl
  | cons field rest =>
    obtain ⟨name, value⟩ := field
    have own := count_compact isFence value
    rw [stringsOfFields, countIn_cons, countIn_append, ← own]
    cases rest with
    | nil =>
      rw [compactFields, List.count_append, List.count_cons_of_ne colon]
      rfl
    | cons next others =>
      simp only [compactFields, List.count_append, List.count_cons_of_ne colon,
        List.count_cons_of_ne comma, count_compactFields isFence (next :: others), Nat.add_assoc]

end

/-- Where nothing else quotes, the double quotes of an expression come in pairs. -/
theorem even_quotes {text : Text} (derivation : Derives .expression text) (noSingle : '\x27' ∉ text)
    (noBacktick : '\x60' ∉ text) : text.count '\x22' % 2 = 0 := by
  generalize shape : Form.expression = form at derivation
  induction derivation with
  | empty form => rfl
  | escaped character later ih => cases shape
  | placeholder inside later _ ih => cases shape
  | plain isPlain later ih => cases shape
  | bare isBare later ih =>
    rw [List.mem_cons, not_or] at noSingle noBacktick
    rw [List.count_cons_of_ne isBare.1]
    exact ih noSingle.2 noBacktick.2 shape
  | @quoted quote run rest isQuote inside later ih =>
    simp only [List.mem_cons, List.mem_append, not_or] at noSingle noBacktick
    have behind := ih noSingle.2.2.2 noBacktick.2.2.2 shape
    obtain rfl : quote = '\x22' := isQuote.resolve_right (Ne.symm noSingle.1)
    rw [List.count_cons_self, List.count_append, List.count_cons_self,
      List.count_eq_zero.mpr inside]
    omega
  | @braces body rest inside later ihInside ihLater =>
    simp only [List.mem_cons, List.mem_append, not_or] at noSingle noBacktick
    have within := ihInside noSingle.2.1 noBacktick.2.1 shape
    have behind := ihLater noSingle.2.2.2 noBacktick.2.2.2 shape
    rw [List.count_cons_of_ne (by decide), List.count_append, List.count_cons_of_ne (by decide)]
    omega
  | template inside later _ ih => exact absurd List.mem_cons_self noBacktick

/-- Where no string and no key holds a single quote or a backtick, there is an even number of double
quotes in them if the compact text is an expression. -/
theorem even_quotes_of_compact {value : Json} (derivation : Derives .expression value.compact)
    (unquoted : ∀ text ∈ value.strings, '\x27' ∉ text ∧ '\x60' ∉ text) :
    (value.strings.map (List.count '\x22')).sum % 2 = 0 := by
  have absent (fence : Char) (isFence : IsFence fence) (other : fence ≠ '\x22')
      (none : ∀ text ∈ value.strings, fence ∉ text) : fence ∉ value.compact := by
    rw [← List.count_eq_zero, count_compact isFence, countIn, List.sum_eq_zero_iff_forall_eq_nat]
    intro count member
    obtain ⟨text, isString, rfl⟩ := List.mem_map.mp member
    rw [count_stringText isFence, List.count_eq_zero.mpr (none text isString),
      List.count_cons_of_ne (Ne.symm other)]
    rfl
  have even := even_quotes derivation
    (absent '\x27' (Or.inl (Or.inr rfl)) (by decide) fun text member => (unquoted text member).1)
    (absent '\x60' (Or.inr rfl) (by decide) fun text member => (unquoted text member).2)
  have pairs (texts : List Text) :
      countIn '\x22' texts = (texts.map (List.count '\x22')).sum + 2 * texts.length := by
    induction texts with
    | nil => rfl
    | cons text rest ih =>
      rw [countIn_cons, ih, count_stringText (Or.inl (Or.inl rfl)), List.map_cons, List.sum_cons,
        List.length_cons, List.count_singleton_self]
      omega
  rw [count_compact (Or.inl (Or.inl rfl)), pairs] at even
  omega

end Json

/-! ## Placeholders -/

/-- An expression in braces behind a dollar sign is a closed placeholder, and nothing else is. -/
theorem isClosed_placeholder_iff {body : Text} :
    IsClosed (placeholder body) ↔ Derives .expression body := by
  constructor
  · intro closed
    obtain ⟨inner, inside, same⟩ := isPlaceholder_of_isClosed closed
    have bodies : body ++ ['}'] = inner ++ ['}'] := by
      simpa [placeholder, placeholderOpening] using same
    rwa [List.append_cancel_right bodies]
  · exact isClosed_placeholder

/-- An array or an object is written as a closed placeholder exactly if its compact text is an
expression, in which a double quote ends a quoted run also behind a backslash. That is so if each
string and each key is an expression in its quotes: if its double quotes come in pairs with nothing
between them that opens or closes anything, and so if it has none. It is not so if they are odd in
number and there are no other quotes and no backticks. -/
theorem composite_placeholder_closed_iff (interpolate : Bool) (name : Text) (value : Json)
    (isComposite : value.IsComposite) :
    ∃ encoded, encodeProperty interpolate name (.json value) = .ok encoded ∧
      encoded.text = placeholder value.compact ∧
      (IsClosed encoded.text ↔ Derives .expression value.compact) ∧
      ((∀ text ∈ value.strings, Derives .expression (Json.stringText text)) →
        IsClosed encoded.text) ∧
      ((∀ text ∈ value.strings, Json.PairsQuotes false text) → IsClosed encoded.text) ∧
      ((∀ text ∈ value.strings, '\x22' ∉ text) → IsClosed encoded.text) ∧
      ((∀ text ∈ value.strings, '\x27' ∉ text ∧ '\x60' ∉ text) → IsClosed encoded.text →
        (value.strings.map (List.count '\x22')).sum % 2 = 0) := by
  have written : ∃ encoded, encodeProperty interpolate name (.json value) = .ok encoded ∧
      encoded = .silent (placeholder value.compact) := by
    cases value with
    | array items => exact ⟨_, rfl, rfl⟩
    | object fields => exact ⟨_, rfl, rfl⟩
    | _ => exact absurd isComposite id
  obtain ⟨_, expressed, rfl⟩ := written
  have closed (inside : ∀ text ∈ value.strings, Derives .expression (Json.stringText text)) :
      IsClosed (placeholder value.compact) :=
    isClosed_placeholder (Json.derives_compact value inside)
  refine ⟨_, expressed, rfl, isClosed_placeholder_iff, closed, ?_, ?_, ?_⟩
  · intro paired
    exact closed fun text member => Json.derives_stringText (paired text member)
  · intro absent
    exact closed fun text member =>
      Json.derives_stringText (Json.pairsQuotes_of_not_mem (absent text member))
  · intro unquoted isClosed
    exact Json.even_quotes_of_compact (isClosed_placeholder_iff.mp isClosed) unquoted

def quotedFields : Json :=
  .object [
    ("say \x22hi\x22".toList,
      .array [.string "\x60$\x7b'\x7d\\".toList, .integer (-5), .null]),
    ("\x7d".toList, .object [("a".toList, .bool true)])]

/-- The quotes around the word leave it outside of quoted runs, where it does no harm. -/
theorem quoted_fields_closed :
    quotedFields.IsComposite ∧ (∀ text ∈ quotedFields.strings, Json.PairsQuotes false text) ∧
      ∃ encoded, encodeProperty true [] (.json quotedFields) = .ok encoded ∧
        encoded.text = placeholder quotedFields.compact ∧ IsClosed encoded.text := by
  have paired : ∀ text ∈ quotedFields.strings, Json.PairsQuotes false text := by decide
  obtain ⟨encoded, expressed, written, -, -, closed, -, -⟩ :=
    composite_placeholder_closed_iff true [] quotedFields trivial
  exact ⟨trivial, paired, encoded, expressed, written, closed paired⟩

/-- The quote in the string ends the quoted run in which JSON escapes it, so that another run opens
at the end of the string and is never closed. -/
theorem escaped_quote_leaves_placeholder_open :
    ∃ encoded, encodeProperty true [] (.json (.array [.string ['\x22']])) = .ok encoded ∧
      encoded.text = "$\x7b[\x22\\\x22\x22]\x7d".toList ∧
      enclose? [] [] encoded.text = none ∧ ¬IsClosed encoded.text := by
  have written : placeholder (Json.array [.string ['\x22']]).compact =
      "$\x7b[\x22\\\x22\x22]\x7d".toList := by decide
  have rejected : enclose? [] [] (placeholder (Json.array [.string ['\x22']]).compact) = none := by
    rw [written]
    decide
  refine ⟨_, rfl, written, rejected, ?_⟩
  intro closed
  cases rejected.symm.trans (closed [] [])

end TreeTemplate
