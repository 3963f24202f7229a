import TreeTemplate.Proofs.Markup.Decoding
import TreeTemplate.Proofs.Template.Closed

/-!
# Delimited attribute values

An attribute value ends where its quote stands for the second time outside placeholders. A value
without placeholders is free of the quote that is put around it, and a placeholder needs no quotes.
A value that mixes placeholders with other text is put between double quotes as it is, so that it is
delimited exactly if the other text holds no double quote.
-/
set_option autoImplicit false

namespace TreeTemplate

open Placeholder

namespace Placeholder

def remainder (stack : Stack) (current : Text) : Text → Text
  | [] => current
  | character :: rest =>
    match (stepAt stack character rest).action.apply stack with
    | [] => remainder [] [] rest
    | context :: below => remainder (context :: below) (current ++ [character]) rest

theorem flatten_pieces (stack : Stack) (current text : Text) :
    (pieces stack current text).flatten ++ remainder stack current text = current ++ text := by
  induction text generalizing stack current with
  | nil => exact (List.append_nil current).symm
  | cons character rest ih =>
    cases effect : (stepAt stack character rest).action.apply stack with
    | nil =>
      rw [pieces_cons_done effect, remainder, effect, List.flatten_cons, List.append_assoc, ih]
      simp
    | cons context below =>
      rw [pieces_cons_inside effect, remainder, effect, ih]
      simp

/-- The character stands in placeholders only, as the scanner cuts the text into pieces. -/
def IsSheltered (character : Char) (text : Text) : Prop :=
  (∀ piece ∈ pieces [] [] text, character ∈ piece → IsPlaceholder piece) ∧
    character ∉ remainder [] [] text

theorem isSheltered_of_not_mem {character : Char} {text : Text} (absent : character ∉ text) :
    IsSheltered character text := by
  have whole := flatten_pieces [] [] text
  rw [List.nil_append] at whole
  rw [← whole, List.mem_append, not_or] at absent
  refine ⟨?_, absent.2⟩
  intro piece isPiece inside
  exact absurd (List.mem_flatten.mpr ⟨piece, isPiece, inside⟩) absent.1

def Item.fenced : Item → Item
  | .plain character => if character = '\x60' then .escaped character else .plain character
  | item => item

theorem source_fenced (item : Item) : item.fenced.source = item.written := by
  cases item with
  | plain character =>
    rw [Item.fenced, Item.written]
    split <;> rfl
  | escaped character => rfl
  | placeholder body => rfl

theorem sources_fenced (items : List Item) : sources (items.map Item.fenced) = writtenRow items := by
  rw [sources, List.flatMap_map, writtenRow]
  congr 1
  funext item
  exact source_fenced item

theorem isRow_fenced {items : List Item} (row : IsRow false items) :
    IsRow false (items.map Item.fenced) := by
  induction items with
  | nil => trivial
  | cons item rest ih =>
    obtain ⟨fits, later⟩ := row
    refine ⟨?_, ih later⟩
    rw [sources_fenced]
    cases item with
    | escaped character => trivial
    | placeholder body => exact fits
    | plain character =>
      obtain ⟨backslash, dollar, -⟩ := fits
      rw [Item.fenced]
      split
      · trivial
      · refine ⟨backslash, ?_, Bool.false_ne_true.elim⟩
        rintro ⟨isDollar, brace⟩
        exact dollar ⟨isDollar, head?_writtenRow rest brace⟩

theorem pieces_writtenRow {items : List Item} (row : IsRow false items) :
    pieces [] [] (writtenRow items) = items.map Item.written := by
  rw [← sources_fenced, pieces_row _ (isRow_fenced row), List.map_map]
  congr 1
  funext item
  exact source_fenced item

theorem remainder_writtenRow {items : List Item} (row : IsRow false items) :
    remainder [] [] (writtenRow items) = [] := by
  have whole := flatten_pieces [] [] (writtenRow items)
  have cut : (items.map Item.written).flatten = writtenRow items := List.flatMap_def.symm
  rw [pieces_writtenRow row, cut, List.nil_append] at whole
  exact List.append_right_eq_self.mp whole

/-- An item is written as a placeholder only if it is one. -/
theorem isPlaceholder_written {item : Item} (whole : IsPlaceholder item.written) :
    item.body?.isSome = true := by
  obtain ⟨body, -, same⟩ := whole
  cases item with
  | placeholder own => rfl
  | escaped character => cases (List.cons.inj same).1
  | plain character =>
    rw [Item.written] at same
    split at same
    · cases (List.cons.inj same).1
    · cases (List.cons.inj same).2

theorem derives_of_mem {nested : Bool} {items : List Item} (row : IsRow nested items) {body : Text}
    (isItem : .placeholder body ∈ items) : Derives .expression body := by
  induction items with
  | nil => cases isItem
  | cons item rest ih =>
    rcases List.mem_cons.mp isItem with rfl | later
    · exact row.1
    · exact ih row.2 later

/-- A piece of the row that is no placeholder holds the character. -/
def HasStray (character : Char) (items : List Item) : Prop :=
  ∃ item ∈ items, item.body? = none ∧ character ∈ item.source

theorem mem_written {character : Char} {item : Item} (other : character ≠ '\\') :
    character ∈ item.written ↔ character ∈ item.source := by
  cases item with
  | plain own =>
    rw [Item.written]
    split
    · simp [Item.source, other]
    · rfl
  | escaped own => rfl
  | placeholder body => rfl

theorem isSheltered_writtenRow {character : Char} (other : character ≠ '\\') {items : List Item}
    (row : IsRow false items) :
    IsSheltered character (writtenRow items) ↔ ¬HasStray character items := by
  rw [IsSheltered, pieces_writtenRow row, remainder_writtenRow row]
  constructor
  · rintro ⟨sheltered, -⟩ ⟨item, isItem, noBody, inside⟩
    have whole := sheltered item.written (List.mem_map_of_mem isItem) ((mem_written other).mpr inside)
    have hasBody := isPlaceholder_written whole
    rw [noBody] at hasBody
    cases hasBody
  · intro straight
    refine ⟨?_, List.not_mem_nil⟩
    intro piece isPiece inside
    obtain ⟨item, isItem, rfl⟩ := List.mem_map.mp isPiece
    cases item with
    | placeholder body => exact ⟨body, derives_of_mem row isItem, rfl⟩
    | escaped own => exact absurd ⟨_, isItem, rfl, (mem_written other).mp inside⟩ straight
    | plain own => exact absurd ⟨_, isItem, rfl, (mem_written other).mp inside⟩ straight

end Placeholder

/-! ## Attribute values -/

/-- The value is one placeholder, or it stands between quotes that occur in its placeholders only. -/
def IsDelimited (written : Text) : Prop :=
  IsClosed written ∨
    ∃ quote body, IsQuote quote ∧ written = quote :: (body ++ [quote]) ∧ IsSheltered quote body

/-- A placeholder opens in the value, nothing is left open, and there is a double quote outside the
placeholders. -/
def HasOpenQuote (value : Text) : Prop :=
  Text.occurs placeholderOpening value = true ∧
    ∃ items, IsRow false items ∧ sources items = value ∧ HasStray '\x22' items

theorem isPlaceholder_of_isClosed {text : Text} (closed : IsClosed text) : IsPlaceholder text := by
  have accepted : enclose? [] [] text ≠ none := by simp [closed [] []]
  rw [ne_eq, enclose?_eq_none_iff, not_not] at accepted
  obtain ⟨items, row, rfl⟩ := isRow_of_derives false text accepted
  by_contra mixed
  -- A mixed text is given its delimiters, which are longer than nothing.
  have enclosed := enclose?_mixed ['\x22'] ['\x22'] items row mixed
  have bare := enclose?_mixed [] [] items row mixed
  rw [closed] at enclosed bare
  have lengths := congrArg List.length
    ((Option.some.inj enclosed).symm.trans (Option.some.inj bare))
  simp only [List.length_append, List.length_cons, List.length_nil] at lengths
  omega

theorem isDelimited_quoted {quote : Char} (isQuote : IsQuote quote) (body : Text) :
    IsDelimited (quote :: (body ++ [quote])) ↔ IsSheltered quote body := by
  constructor
  · rintro (closed | ⟨other, content, -, same, sheltered⟩)
    · obtain ⟨inner, -, shape⟩ := isPlaceholder_of_isClosed closed
      rcases isQuote with rfl | rfl <;> cases (List.cons.inj shape).1
    · obtain ⟨rfl, rest⟩ := List.cons.inj same
      rwa [List.append_cancel_right rest]
  · intro sheltered
    exact Or.inr ⟨quote, body, isQuote, rfl, sheltered⟩

/-- Without placeholders, the quote around a value is one that does not occur in it. -/
theorem isDelimited_plain {value : Text}
    (unmarked : Text.occurs placeholderOpening value = false) :
    IsDelimited (encodeInterpolatedValue value).text := by
  obtain ⟨quote, escapes, isQuote, -, written, inside⟩ := Markup.quoted_of_unmarked value unmarked
  rw [written]
  exact (isDelimited_quoted isQuote _).mpr (isSheltered_of_not_mem inside)

/-- An interpolated attribute value is delimited, unless it mixes placeholders with other text that
holds a double quote: then that quote ends the value. -/
theorem attribute_value_delimited_iff (value : Text) :
    IsDelimited (encodeInterpolatedValue value).text ↔ ¬HasOpenQuote value := by
  cases marked : Text.occurs placeholderOpening value with
  | false =>
    have straight : ¬HasOpenQuote value := by
      rintro ⟨occurs, -⟩
      rw [marked] at occurs
      cases occurs
    exact iff_of_true (isDelimited_plain marked) straight
  | true =>
    rw [encodeInterpolatedValue, if_pos marked, encodeExpression]
    by_cases balanced : Derives (.items false) value
    · obtain ⟨items, row, rfl⟩ := isRow_of_derives false value balanced
      have opensQuote : HasOpenQuote (sources items) ↔ HasStray '\x22' items := by
        constructor
        · rintro ⟨-, others, rowOthers, same, stray⟩
          rwa [isRow_unique others items rowOthers row same] at stray
        · intro stray
          exact ⟨marked, items, row, rfl, stray⟩
      rw [opensQuote]
      by_cases whole : IsPlaceholder (sources items)
      · rw [enclose?_placeholder _ _ _ whole]
        refine iff_of_true (Or.inl (isClosed_of_isPlaceholder whole)) ?_
        obtain ⟨body, rfl⟩ := (isPlaceholder_sources_iff items row).mp whole
        rintro ⟨item, isItem, noBody, -⟩
        rw [List.mem_singleton.mp isItem] at noBody
        cases noBody
      · rw [enclose?_mixed _ _ items row whole]
        exact (isDelimited_quoted (Or.inl rfl) _).trans (isSheltered_writtenRow (by decide) row)
    · rw [(enclose?_eq_none_iff _ _ value).mpr balanced]
      refine iff_of_true (Or.inl (isClosed_encodeLiteral value)) ?_
      rintro ⟨-, items, row, rfl, -⟩
      exact balanced (derives_of_isRow false items row)

/-- The quote before the placeholder stands between the quotes around the value. -/
theorem open_quote_ends_value :
    (encodeInterpolatedValue "a\x22b$\x7bx\x7d".toList).text =
        "\x22a\x22b$\x7bx\x7d\x22".toList ∧
      ¬IsDelimited (encodeInterpolatedValue "a\x22b$\x7bx\x7d".toList).text := by
  have written : (encodeInterpolatedValue "a\x22b$\x7bx\x7d".toList).text =
      '\x22' :: ("a\x22b$\x7bx\x7d".toList ++ ['\x22']) := by decide
  refine ⟨written, ?_⟩
  rw [written, isDelimited_quoted (Or.inl rfl)]
  rintro ⟨sheltered, -⟩
  obtain ⟨body, -, same⟩ := sheltered ['\x22'] (by decide) List.mem_cons_self
  cases (List.cons.inj same).1

end TreeTemplate
