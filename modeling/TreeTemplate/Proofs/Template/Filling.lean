import TreeTemplate.Binding.Registry
import TreeTemplate.Proofs.Number.Notation
import TreeTemplate.Proofs.Placeholder.Acceptance
import TreeTemplate.Proofs.Text.Replacing
import TreeTemplate.Template.Writer

/-!
# Placeholders that a compile writes

What may stand in a placeholder of a template without interpolation: a reference to a property, the
call of a function, a value, or a literal. `Holds` says which placeholders a text has at its top
level when it is scanned, and that no backtick stands there. A text is read from its end: each lemma
says what one more piece in front adds.
-/
set_option autoImplicit false

namespace TreeTemplate

open Placeholder

/-- The content of a backtick literal: each backslash is dropped and the next character kept. -/
def unescape : Text → Text
  | '\\' :: character :: rest => character :: unescape rest
  | character :: rest => character :: unescape rest
  | [] => []

def literalItems (content : Text) : List Item :=
  content.map fun character =>
    if character = '\\' || character = '\x60' || character = '$' then .escaped character
    else .plain character

theorem sources_literalItems (content : Text) :
    sources (literalItems content) = content.flatMap literalCharacter := by
  induction content with
  | nil => rfl
  | cons character rest ih =>
    rw [literalItems, List.map_cons, ← literalItems, sources_cons, ih, List.flatMap_cons,
      literalCharacter]
    split <;> rfl

theorem isRow_literalItems (content : Text) : IsRow true (literalItems content) := by
  induction content with
  | nil => trivial
  | cons character rest ih =>
    rw [literalItems, List.map_cons, ← literalItems]
    refine ⟨?_, ih⟩
    split
    · trivial
    · rename_i plain
      simp only [Bool.or_eq_true, decide_eq_true_eq, not_or] at plain
      obtain ⟨⟨backslash, backtick⟩, dollar⟩ := plain
      exact ⟨backslash, fun opens => dollar opens.1, fun _ => backtick⟩

theorem bodies_literalItems (content : Text) : bodies (literalItems content) = [] := by
  rw [bodies, literalItems, List.filterMap_map, List.filterMap_eq_nil_iff]
  intro character _
  simp only [Function.comp_apply]
  split <;> rfl

theorem unescape_of_ne (character : Char) (rest : Text) (plain : character ≠ '\\') :
    unescape (character :: rest) = character :: unescape rest := by
  rw [unescape]
  intro next behind same
  exact absurd same plain

theorem unescape_literal (content : Text) :
    unescape (content.flatMap literalCharacter) = content := by
  induction content with
  | nil => rfl
  | cons character rest ih =>
    rw [List.flatMap_cons, literalCharacter]
    split
    · rw [List.cons_append, List.singleton_append, unescape, ih]
    · rename_i plain
      simp only [Bool.or_eq_true, decide_eq_true_eq, not_or] at plain
      rw [List.singleton_append, unescape_of_ne character _ plain.1.1, ih]

inductive Filling where
  | reference (name : Text)
  | call (name : Text)
  | constant (expression : Text)
  | literal (quoted : Text)

namespace Filling

def body : Filling → Text
  | .reference name => "item.".toList ++ name
  | .call name => "()=>".toList ++ name ++ "()".toList
  | .constant expression => expression
  | .literal quoted => '\x60' :: (quoted ++ ['\x60'])

theorem body_reference (name : Text) : (reference name).body = "item.".toList ++ name := rfl

theorem body_literal (quoted : Text) : (literal quoted).body = '\x60' :: (quoted ++ ['\x60']) := rfl

def quoted? : Filling → Option Text
  | .literal quoted => some quoted
  | _ => none

end Filling

def IsBareText (text : Text) : Prop :=
  ∀ character ∈ text, IsBare character

instance decidableIsBareText (text : Text) : Decidable (IsBareText text) :=
  List.decidableBAll _ text

theorem isBareText_append {left right : Text} (first : IsBareText left)
    (second : IsBareText right) : IsBareText (left ++ right) :=
  List.forall_mem_append.mpr ⟨first, second⟩

theorem derives_bare {text : Text} (bare : IsBareText text) : Derives .expression text := by
  induction text with
  | nil => exact Derives.empty _
  | cons character rest ih =>
    obtain ⟨first, later⟩ := List.forall_mem_cons.mp bare
    exact Derives.bare first (ih later)

theorem isBare_of_isDigit {character : Char} (isDigit : Text.IsDigit character) :
    IsBare character := by
  obtain ⟨value, small, rfl⟩ := isDigit
  have check : ∀ digit : Fin 10, IsBare (Text.digit digit) := by decide
  exact check ⟨value, small⟩

theorem isBareText_numeral (value : Nat) : IsBareText (Text.numeral value) := by
  intro character member
  exact isBare_of_isDigit (Text.isDigit_of_mem_numeral value character member)

theorem isBareText_scriptText (number : Number) : IsBareText number.scriptText := by
  have marks : IsBareText ['.', '+', '-', 'e'] := by decide
  have letters : IsBareText "-NaInfity".toList := by decide
  intro character member
  rcases mem_number_text scriptStyle number character member with (isDigit | isMark) | inWord
  · exact isBare_of_isDigit isDigit
  · exact marks character isMark
  · exact letters character inWord

theorem isBareText_boolText (value : Bool) : IsBareText (boolText value) := by
  cases value <;> decide

theorem derives_reference (ordinal : Nat) :
    Derives .expression (Filling.reference (propertyName ordinal)).body := by
  have name : IsBareText (propertyName ordinal) :=
    isBareText_append (by decide) (isBareText_numeral ordinal)
  exact derives_bare (isBareText_append (by decide) name)

theorem derives_call (ordinal : Nat) :
    Derives .expression (Filling.call (functionName ordinal)).body := by
  have name : IsBareText (functionName ordinal) :=
    isBareText_append (by decide) (isBareText_numeral ordinal)
  exact derives_bare (isBareText_append (isBareText_append (by decide) name) (by decide))

theorem derives_literal (content : Text) :
    Derives .expression (Filling.literal (content.flatMap literalCharacter)).body := by
  have inside := derives_of_isRow true (literalItems content) (isRow_literalItems content)
  rw [sources_literalItems] at inside
  exact Derives.template inside (Derives.empty _)

def IsInert (text : Text) : Prop :=
  ∀ character ∈ text, character ≠ '$' ∧ character ≠ '\x60' ∧ character ≠ '\\'

instance decidableIsInert (text : Text) : Decidable (IsInert text) :=
  List.decidableBAll _ text

theorem isInert_append {left right : Text} (first : IsInert left) (second : IsInert right) :
    IsInert (left ++ right) :=
  List.forall_mem_append.mpr ⟨first, second⟩

/-- The placeholders at the top level of the text are those of the fillings, and no backtick stands
at the top level. -/
def Holds (text : Text) (fillings : List Filling) : Prop :=
  ∃ items, IsRow false items ∧ sources items = text ∧ .plain '\x60' ∉ items ∧
    bodies items = fillings.map Filling.body

section Holds
variable {rest : Text} {fillings : List Filling}

theorem Holds.nil : Holds [] [] :=
  ⟨[], trivial, rfl, by simp, rfl⟩

theorem Holds.plain {character : Char} (backslash : character ≠ '\\')
    (backtick : character ≠ '\x60') (dollar : ¬(character = '$' ∧ rest.head? = some '{'))
    (behind : Holds rest fillings) : Holds (character :: rest) fillings := by
  obtain ⟨items, row, rfl, quiet, inside⟩ := behind
  refine ⟨.plain character :: items, ⟨⟨backslash, dollar, fun _ => backtick⟩, row⟩, rfl, ?_, inside⟩
  simp [quiet, Ne.symm backtick]

theorem Holds.escaped (character : Char) (behind : Holds rest fillings) :
    Holds ('\\' :: character :: rest) fillings := by
  obtain ⟨items, row, rfl, quiet, inside⟩ := behind
  exact ⟨.escaped character :: items, ⟨trivial, row⟩, rfl, by simp [quiet], inside⟩

theorem Holds.inert {text : Text} (inert : IsInert text) (behind : Holds rest fillings) :
    Holds (text ++ rest) fillings := by
  induction text with
  | nil => exact behind
  | cons character later ih =>
    obtain ⟨⟨dollar, backtick, backslash⟩, inertLater⟩ := List.forall_mem_cons.mp inert
    exact Holds.plain backslash backtick (fun opens => dollar opens.1) (ih inertLater)

theorem Holds.placeholder {filling : Filling} (derives : Derives .expression filling.body)
    (behind : Holds rest fillings) :
    Holds (TreeTemplate.placeholder filling.body ++ rest) (filling :: fillings) := by
  obtain ⟨items, row, rfl, quiet, inside⟩ := behind
  refine ⟨.placeholder filling.body :: items, ⟨derives, row⟩, ?_, by simp [quiet], ?_⟩
  · simp [Item.source, TreeTemplate.placeholder, placeholderOpening]
  · rw [bodies, List.filterMap_cons, List.map_cons, ← inside]
    rfl

/-- A line break is an item of its own, so that what stands behind it can be read without it. -/
theorem Holds.behind_line (whole : Holds ('\n' :: rest) fillings) : Holds rest fillings := by
  obtain ⟨items, row, same, quiet, inside⟩ := whole
  cases items with
  | nil => cases same
  | cons item later =>
    cases item with
    | escaped character => simp [Item.source] at same
    | placeholder body => simp [Item.source] at same
    | plain character =>
      obtain ⟨rfl, rfl⟩ := List.cons.inj same
      exact ⟨later, row.2, rfl, fun member => quiet (List.mem_cons_of_mem _ member), inside⟩

end Holds

/-! ## Character data -/

/-- Free of backticks and of what opens a placeholder. Backslashes are allowed. -/
def IsData : Text → Prop
  | [] => True
  | character :: rest =>
    character ≠ '\x60' ∧ ¬(character = '$' ∧ rest.head? = some '{') ∧ IsData rest

/-- Character data before a line break holds nothing. The second half is for a backslash, which takes
the next character with it: that may be the line break. -/
theorem holds_data {text rest : Text} {fillings : List Filling} (isData : IsData text)
    (behind : Holds rest fillings) :
    Holds (text ++ '\n' :: rest) fillings ∧ Holds (text ++ '\n' :: rest).tail fillings := by
  induction text with
  | nil => exact ⟨Holds.plain (by decide) (by decide) (by simp) behind, behind⟩
  | cons character later ih =>
    obtain ⟨backtick, dollar, isDataLater⟩ := isData
    obtain ⟨whole, tail⟩ := ih isDataLater
    refine ⟨?_, whole⟩
    by_cases backslash : character = '\\'
    · subst backslash
      cases later with
      | nil => exact Holds.escaped '\n' tail
      | cons next behindNext => exact Holds.escaped next tail
    · refine Holds.plain backslash backtick ?_ whole
      rintro ⟨isDollar, opens⟩
      cases later with
      | nil => simp at opens
      | cons next behindNext => exact dollar ⟨isDollar, opens⟩

theorem isData_inert_append {text rest : Text} (inert : IsInert text) (isData : IsData rest) :
    IsData (text ++ rest) := by
  induction text with
  | nil => exact isData
  | cons character later ih =>
    obtain ⟨⟨dollar, backtick, _⟩, inertLater⟩ := List.forall_mem_cons.mp inert
    exact ⟨backtick, fun opens => dollar opens.1, ih inertLater⟩

/-- Replacing characters by inert texts keeps character data, unless a brace is put first. -/
theorem isData_flatMap {image : Char → Text} {text : Text}
    (safe : ∀ character, image character = [character] ∨
      (IsInert (image character) ∧ ∃ first more, image character = first :: more ∧ first ≠ '{'))
    (isData : IsData text) : IsData (text.flatMap image) := by
  have opens (rest : Text) (head : (rest.flatMap image).head? = some '{') :
      rest.head? = some '{' := by
    cases rest with
    | nil => cases head
    | cons character behind =>
      rw [List.flatMap_cons] at head
      rcases safe character with same | ⟨_, first, more, isEscaped, apart⟩
      · rw [same] at head
        exact head
      · rw [isEscaped] at head
        exact absurd (Option.some.inj head) apart
  induction text with
  | nil => trivial
  | cons character rest ih =>
    obtain ⟨backtick, dollar, isDataRest⟩ := isData
    rw [List.flatMap_cons]
    rcases safe character with same | ⟨inert, _⟩
    · rw [same]
      exact ⟨backtick, fun found => dollar ⟨found.1, opens rest found.2⟩, ih isDataRest⟩
    · exact isData_inert_append inert (ih isDataRest)

theorem isData_escapeMarkup {text : Text} (isData : IsData text) : IsData (escapeMarkup text) := by
  rw [escapeMarkup, Text.replaceAll_singleton, Text.replaceAll_singleton]
  refine isData_flatMap ?_ (isData_flatMap ?_ isData)
  · intro character
    split
    · exact Or.inr ⟨by decide, '&', "lt;".toList, by decide, by decide⟩
    · exact Or.inl rfl
  · intro character
    split
    · exact Or.inr ⟨by decide, '&', "amp;".toList, by decide, by decide⟩
    · exact Or.inl rfl

theorem isData_of_not_occurs {text : Text} (noOpening : Text.occurs placeholderOpening text = false)
    (noBacktick : '\x60' ∉ text) : IsData text := by
  induction text with
  | nil => trivial
  | cons character rest ih =>
    rw [Text.occurs, Bool.or_eq_false_iff] at noOpening
    obtain ⟨notHere, notLater⟩ := noOpening
    rw [List.mem_cons, not_or] at noBacktick
    refine ⟨Ne.symm noBacktick.1, ?_, ih notLater noBacktick.2⟩
    rintro ⟨rfl, opens⟩
    obtain ⟨behind, rfl⟩ := List.head?_eq_some_iff.mp opens
    simp [placeholderOpening, List.isPrefixOf] at notHere

end TreeTemplate
