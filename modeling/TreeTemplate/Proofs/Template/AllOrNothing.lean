import TreeTemplate.Proofs.Template.Delimited

/-!
# All placeholders or none

A text is encoded with all of its placeholders or with none of them. If the scanner accepts it, they
are written as they are, in their order, whatever is put around them and wherever a backtick of the
text is escaped. If it does not, the text becomes a literal from which it can be read back, and a
warning says so.
-/
set_option autoImplicit false

namespace TreeTemplate

open Placeholder

namespace Placeholder

/-- The expressions of the placeholders that stand at the top level of the text, in their order. A
nested text stands between backticks, so that it is free of plain ones. -/
def HasPlaceholders (nested : Bool) (text : Text) (found : List Text) : Prop :=
  ∃ items, IsRow nested items ∧ sources items = text ∧ bodies items = found

/-- A row between backticks is a row that is free of plain backticks. -/
theorem isRow_nested_iff (items : List Item) :
    IsRow true items ↔ IsRow false items ∧ .plain '\x60' ∉ items := by
  induction items with
  | nil => exact iff_of_true trivial ⟨trivial, List.not_mem_nil⟩
  | cons item rest ih =>
    rw [IsRow, IsRow, ih, List.mem_cons, not_or]
    cases item with
    | escaped character => simp [Item.Fits]
    | placeholder body => simp [Item.Fits, and_assoc]
    | plain character =>
      simp only [Item.Fits, IsPlain, Item.plain.injEq, eq_comm, Bool.false_eq_true, false_implies,
        true_implies, and_true]
      tauto

theorem HasPlaceholders.of_nested {text : Text} {found : List Text}
    (nested : HasPlaceholders true text found) : HasPlaceholders false text found := by
  obtain ⟨items, row, same, inside⟩ := nested
  exact ⟨items, ((isRow_nested_iff items).mp row).1, same, inside⟩

theorem HasPlaceholders.functional {text : Text} {found others : List Text}
    (first : HasPlaceholders false text found) (second : HasPlaceholders false text others) :
    found = others := by
  obtain ⟨items, row, rfl, rfl⟩ := first
  obtain ⟨otherItems, otherRow, same, rfl⟩ := second
  rw [isRow_unique items otherItems row otherRow same.symm]

theorem bodies_fenced (items : List Item) : bodies (items.map Item.fenced) = bodies items := by
  have body (item : Item) : item.fenced.body? = item.body? := by
    cases item with
    | plain character =>
      rw [Item.fenced]
      split <;> rfl
    | escaped character => rfl
    | placeholder body => rfl
  rw [bodies, List.filterMap_map, bodies]
  exact List.filterMap_congr fun item _ => body item

theorem isRow_nested_fenced {items : List Item} (row : IsRow false items) :
    IsRow true (items.map Item.fenced) := by
  refine (isRow_nested_iff _).mpr ⟨isRow_fenced row, ?_⟩
  intro member
  obtain ⟨item, -, same⟩ := List.mem_map.mp member
  cases item with
  | plain character =>
    rw [Item.fenced] at same
    split at same
    · cases same
    · rename_i other
      exact other (Item.plain.inj same)
  | escaped character => cases same
  | placeholder body => cases same

theorem hasPlaceholders_writtenRow {items : List Item} (row : IsRow false items) :
    HasPlaceholders true (writtenRow items) (bodies items) :=
  ⟨items.map Item.fenced, isRow_nested_fenced row, sources_fenced items, bodies_fenced items⟩

/-- A character behind a row leaves the row as it is, unless it is a brace, which a dollar sign at
the end of the row would meet. -/
theorem isRow_concat {items : List Item} (row : IsRow false items) {character : Char}
    (fits : IsPlain false character []) (noBrace : character ≠ '{') :
    IsRow false (items ++ [.plain character]) := by
  induction items with
  | nil => exact ⟨fits, trivial⟩
  | cons item rest ih =>
    obtain ⟨own, later⟩ := row
    rw [List.cons_append]
    refine ⟨?_, ih later⟩
    cases item with
    | escaped other => trivial
    | placeholder body => exact own
    | plain other =>
      obtain ⟨backslash, dollar, -⟩ := own
      refine ⟨backslash, ?_, Bool.false_ne_true.elim⟩
      rintro ⟨isDollar, brace⟩
      have joined : sources (rest ++ [.plain character]) = sources rest ++ [character] := by
        simp [sources, Item.source]
      rw [joined] at brace
      cases behind : sources rest with
      | nil =>
        rw [behind] at brace
        exact noBrace (Option.some.inj brace)
      | cons next others =>
        rw [behind] at brace
        exact dollar ⟨isDollar, by rw [behind]; exact brace⟩

/-- Quotes around a text open no placeholder and close none. -/
theorem HasPlaceholders.quoted {text : Text} {found : List Text}
    (inside : HasPlaceholders false text found) :
    HasPlaceholders false (['\x22'] ++ text ++ ['\x22']) found := by
  obtain ⟨items, row, rfl, rfl⟩ := inside
  have plain (rest : Text) : IsPlain false '\x22' rest := ⟨by decide, by simp, by simp⟩
  refine ⟨.plain '\x22' :: (items ++ [.plain '\x22']),
    ⟨plain _, isRow_concat row (plain _) (by decide)⟩, ?_, ?_⟩
  · simp [sources, Item.source]
  · rw [bodies, List.filterMap_cons_none rfl, List.filterMap_append]
    exact List.append_nil _

end Placeholder

/-- The text is a literal in a placeholder, free of placeholders of its own, from which the value is
read back. -/
def IsLiteral (value written : Text) : Prop :=
  IsClosed written ∧ ∃ quoted, written = placeholder ('\x60' :: (quoted ++ ['\x60'])) ∧
    HasPlaceholders true quoted [] ∧ unescape quoted = value

/-- The value is one placeholder and is written as it is; or it stands between the delimiters with its
own backticks escaped, and its placeholders are those of what stands there, also between backticks. -/
inductive IsKept (opening closing : Text) : Text → Text → Prop where
  | alone {value : Text} (whole : IsPlaceholder value) : IsKept opening closing value value
  | mixed {items : List Item} (row : IsRow false items) (mixed : ¬IsPlaceholder (sources items))
      (same : HasPlaceholders true (writtenRow items) (bodies items)) :
      IsKept opening closing (sources items) (opening ++ writtenRow items ++ closing)

theorem isLiteral_encodeLiteral (value : Text) : IsLiteral value (encodeLiteral value) := by
  refine ⟨isClosed_encodeLiteral value, _, encodeLiteral_eq value, ?_, unescape_literal value⟩
  exact ⟨literalItems value, isRow_literalItems value, sources_literalItems value,
    bodies_literalItems value⟩

/-- A value can be read back from its literal. -/
theorem encodeLiteral_injective : Function.Injective encodeLiteral := by
  intro first second same
  rw [encodeLiteral, encodeLiteral, List.append_cancel_right_eq, List.append_cancel_left_eq] at same
  rw [← unescape_literal first, same, unescape_literal]

/-- A text is accepted exactly if it can be told which placeholders it has. -/
theorem accepts_iff_hasPlaceholders (opening closing value : Text) :
    enclose? opening closing value ≠ none ↔ ∃ found, HasPlaceholders false value found := by
  rw [ne_eq, enclose?_eq_none_iff, not_not, derives_items_iff]
  constructor
  · rintro ⟨items, row, same⟩
    exact ⟨bodies items, items, row, same, rfl⟩
  · rintro ⟨-, items, row, same, -⟩
    exact ⟨items, row, same⟩

theorem encodeExpression_of_none {opening closing value : Text}
    (rejected : enclose? opening closing value = none) :
    encodeExpression opening closing value = ⟨encodeLiteral value, [.unbalanced value]⟩ := by
  rw [encodeExpression, rejected]

theorem isKept_encodeExpression {opening closing value : Text}
    (accepted : enclose? opening closing value ≠ none) :
    IsKept opening closing value (encodeExpression opening closing value).text ∧
      (encodeExpression opening closing value).records = [] := by
  obtain ⟨-, items, row, rfl, -⟩ := (accepts_iff_hasPlaceholders opening closing value).mp accepted
  by_cases whole : IsPlaceholder (sources items)
  · rw [encodeExpression, enclose?_placeholder _ _ _ whole]
    exact ⟨.alone whole, rfl⟩
  · rw [encodeExpression, enclose?_mixed _ _ items row whole]
    exact ⟨.mixed row whole (hasPlaceholders_writtenRow row), rfl⟩

structure AllOrNothing (opening closing value : Text) (encoded : Encoded) : Prop where
  accepts : enclose? opening closing value ≠ none ↔ ∃ found, HasPlaceholders false value found
  kept : enclose? opening closing value ≠ none →
    IsKept opening closing value encoded.text ∧ encoded.records = []
  literal : enclose? opening closing value = none →
    IsLiteral value encoded.text ∧ encoded.records = [.unbalanced value]
  warned : (∃ record ∈ encoded.records, record.level = .warn) ↔
    enclose? opening closing value = none

theorem allOrNothing_encodeExpression (opening closing value : Text) :
    AllOrNothing opening closing value (encodeExpression opening closing value) := by
  refine ⟨accepts_iff_hasPlaceholders opening closing value, isKept_encodeExpression, ?_, ?_⟩
  · intro rejected
    rw [encodeExpression_of_none rejected]
    exact ⟨isLiteral_encodeLiteral value, rfl⟩
  · by_cases rejected : enclose? opening closing value = none
    · rw [encodeExpression_of_none rejected]
      exact iff_of_true ⟨_, List.mem_singleton_self _, rfl⟩ rejected
    · rw [(isKept_encodeExpression rejected).2]
      exact iff_of_false (by simp) rejected

/-- An expression is encoded with all of its placeholders or with none of them, whatever stands
around it. Between double quotes the placeholders that are kept are those of the whole; what opens and
closes a literal makes one placeholder of the whole. Two texts that are not accepted are told apart. -/
theorem placeholders_all_or_nothing :
    (∀ opening closing value,
      AllOrNothing opening closing value (encodeExpression opening closing value)) ∧
    (∀ value found, HasPlaceholders false value found →
      HasPlaceholders false (encodeExpression ['\x22'] ['\x22'] value).text found) ∧
    (∀ value, IsClosed (encodeExpression literalOpening literalClosing value).text) ∧
    ∀ opening closing otherOpening otherClosing first second,
      enclose? opening closing first = none → enclose? otherOpening otherClosing second = none →
      (encodeExpression opening closing first).text =
        (encodeExpression otherOpening otherClosing second).text → first = second := by
  refine ⟨allOrNothing_encodeExpression, ?_, isClosed_encodeExpression, ?_⟩
  · intro value found inside
    have accepted := (accepts_iff_hasPlaceholders ['\x22'] ['\x22'] value).mpr ⟨found, inside⟩
    obtain ⟨kept, -⟩ := isKept_encodeExpression accepted
    generalize (encodeExpression ['\x22'] ['\x22'] value).text = written at kept ⊢
    cases kept with
    | alone whole => exact inside
    | mixed row mixed same =>
      rw [inside.functional ⟨_, row, rfl, rfl⟩]
      exact same.of_nested.quoted
  · intro opening closing otherOpening otherClosing first second rejected rejectedOther same
    rw [encodeExpression_of_none rejected, encodeExpression_of_none rejectedOther] at same
    exact encodeLiteral_injective same

def backtickedItems : List Item :=
  [.escaped '\x60', .placeholder ['x'], .plain '\x60']

/-- The placeholder is kept and the plain backtick escaped. A backslash at the end makes a literal of
a text, as a backtick in a placeholder does, and the literals are different. -/
theorem trailing_backslash_makes_literal :
    HasPlaceholders false (sources backtickedItems) [['x']] ∧
      (encodeExpression ['\x22'] ['\x22'] (sources backtickedItems)).text =
        "\x22\\\x60$\x7bx\x7d\\\x60\x22".toList ∧
      HasPlaceholders false "\x22\\\x60$\x7bx\x7d\\\x60\x22".toList [['x']] ∧
      IsLiteral "$\x7bx\x7d\\".toList "$\x7b\x60\\$\x7bx\x7d\\\\\x60\x7d".toList ∧
      (encodeExpression ['\x22'] ['\x22'] "$\x7bx\x7d\\".toList).text ≠
        (encodeExpression literalOpening literalClosing "$\x7b\x60\x7d".toList).text := by
  obtain ⟨encoded, inQuotes, -, apart⟩ := placeholders_all_or_nothing
  have row : IsRow false backtickedItems :=
    ⟨trivial, derives_bare (by decide), ⟨by decide, by decide, by decide⟩, trivial⟩
  have holds : HasPlaceholders false (sources backtickedItems) [['x']] :=
    ⟨backtickedItems, row, rfl, rfl⟩
  have written : (encodeExpression ['\x22'] ['\x22'] (sources backtickedItems)).text =
      "\x22\\\x60$\x7bx\x7d\\\x60\x22".toList := by decide
  have rejected : enclose? ['\x22'] ['\x22'] "$\x7bx\x7d\\".toList = none := by decide
  refine ⟨holds, written, ?_, ?_, ?_⟩
  · rw [← written]
    exact inQuotes _ _ holds
  · exact ((encoded ['\x22'] ['\x22'] "$\x7bx\x7d\\".toList).literal rejected).1
  · intro same
    have wrong := apart _ _ _ _ _ _ rejected (by decide) same
    revert wrong
    decide

end TreeTemplate
