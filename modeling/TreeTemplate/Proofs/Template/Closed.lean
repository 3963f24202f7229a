import TreeTemplate.Proofs.Template.DisabledTour
import TreeTemplate.Proofs.Template.Harmless

/-!
# Closed placeholders

What a compile puts in the place of a placeholder is one placeholder, closed at its end, for the
scanner that validates placeholders. A text whose placeholders are kept goes between backticks:
there its own backticks are escaped, and what it holds besides means the same as before.
-/
set_option autoImplicit false

namespace TreeTemplate

open Placeholder

variable {ι ω : Type}

/-- The scanner takes the text for one placeholder, whatever delimiters it is given. -/
def IsClosed (text : Text) : Prop :=
  ∀ opening closing, enclose? opening closing text = some text

theorem isClosed_placeholder {body : Text} (inside : Derives .expression body) :
    IsClosed (placeholder body) := by
  intro opening closing
  apply enclose?_placeholder
  exact ⟨body, inside, rfl⟩

theorem isClosed_of_isPlaceholder {text : Text} (whole : IsPlaceholder text) : IsClosed text := by
  intro opening closing
  exact enclose?_placeholder opening closing text whole

theorem isClosed_encodeLiteral (value : Text) : IsClosed (encodeLiteral value) := by
  rw [encodeLiteral_eq]
  exact isClosed_placeholder (derives_literal value)

theorem head?_writtenRow (items : List Item) (brace : (writtenRow items).head? = some '{') :
    (sources items).head? = some '{' := by
  cases items with
  | nil => cases brace
  | cons item rest =>
    cases item with
    | escaped character => simp [Item.written, Item.source] at brace
    | placeholder body => simp [Item.written, Item.source] at brace
    | plain character =>
      by_cases backtick : character = '\x60'
      · simp [Item.written, backtick] at brace
      · simpa [Item.written, Item.source, backtick] using brace

/-- What the scanner writes for a row of items can stand between backticks: its own backticks are
escaped, and no dollar sign meets a brace that it did not meet before. -/
theorem derives_writtenRow (items : List Item) (row : IsRow false items) :
    Derives (.items true) (writtenRow items) := by
  induction items with
  | nil => exact Derives.empty _
  | cons item rest ih =>
    obtain ⟨fits, rowRest⟩ := row
    have later := ih rowRest
    rw [writtenRow_cons]
    cases item with
    | escaped character => exact Derives.escaped character later
    | placeholder body =>
      have derived := Derives.placeholder fits later
      simpa [Item.written, Item.source] using derived
    | plain character =>
      obtain ⟨backslash, dollar, -⟩ := fits
      by_cases backtick : character = '\x60'
      · subst backtick
        exact Derives.escaped '\x60' later
      · rw [Item.written, if_neg backtick]
        refine Derives.plain ⟨backslash, ?_, fun _ => backtick⟩ later
        rintro ⟨isDollar, brace⟩
        exact dollar ⟨isDollar, head?_writtenRow rest brace⟩

/-- The three outcomes of a validated text: it is one placeholder and passes through, it is put
between backticks, or it is not balanced and becomes a literal. -/
theorem isClosed_encodeExpression (value : Text) :
    IsClosed (encodeExpression literalOpening literalClosing value).text := by
  -- The scanner and the grammar agree on which texts are balanced.
  unfold encodeExpression
  by_cases balanced : Derives (.items false) value
  · obtain ⟨items, row, rfl⟩ := isRow_of_derives false value balanced
    by_cases whole : IsPlaceholder (sources items)
    · rw [enclose?_placeholder _ _ _ whole]
      exact isClosed_of_isPlaceholder whole
    · rw [enclose?_mixed _ _ items row whole]
      have quoted := Derives.template (derives_writtenRow items row) (Derives.empty .expression)
      have closed := isClosed_placeholder quoted
      simpa [placeholder, placeholderOpening, literalOpening, literalClosing, Encoded.silent]
        using closed
  · rw [(enclose?_eq_none_iff _ _ value).mpr balanced]
    exact isClosed_encodeLiteral value

theorem isClosed_encodeStringProperty (interpolate : Bool) (value : Text) :
    IsClosed (encodeStringProperty interpolate value).text := by
  cases interpolate with
  | false => exact isClosed_encodeLiteral value
  | true => exact isClosed_encodeExpression value

/-- A value that is neither null nor an array nor an object is written, as a closed placeholder. -/
theorem isClosed_encodeProperty (interpolate : Bool) (name : Text) (value : PropertyValue)
    (isScalar : value.IsScalar) (present : value ≠ .json .null) :
    ∃ encoded, encodeProperty interpolate name value = .ok encoded ∧ IsClosed encoded.text := by
  have flag (value : Bool) : IsClosed (placeholder (boolText value)) :=
    isClosed_placeholder (derives_bare (isBareText_boolText value))
  have quantity (number : Number) : IsClosed (placeholder number.scriptText) :=
    isClosed_placeholder (derives_bare (isBareText_scriptText number))
  cases value with
  | bool content => exact ⟨_, rfl, flag content⟩
  | number content => exact ⟨_, rfl, quantity content⟩
  | string content => exact ⟨_, rfl, isClosed_encodeStringProperty interpolate content⟩
  | json content =>
    cases content with
    | null => exact absurd rfl present
    | bool content => exact ⟨_, rfl, flag content⟩
    | integer content => exact ⟨_, rfl, quantity (Number.ofInt content)⟩
    | float content => exact ⟨_, rfl, quantity (Number.finite content)⟩
    | string content => exact ⟨_, rfl, isClosed_encodeStringProperty interpolate content⟩
    | array items => exact absurd isScalar id
    | object fields => exact absurd isScalar id

/-- The scan of the text ends in the expression at the bottom of the stack, which it does not close
on the way. -/
def ReturnsFrom : Stack → Text → Prop
  | stack, [] => stack = [.expression]
  | stack, character :: rest =>
    let after := (stepAt stack character rest).action.apply stack
    after ≠ [] ∧ ReturnsFrom after rest

/-- The text closes within an expression everything that it opens there, and nothing else. -/
def IsArgument (text : Text) : Prop :=
  ReturnsFrom [.expression] text

instance decidableReturnsFrom : ∀ (stack : Stack) (text : Text), Decidable (ReturnsFrom stack text)
  | _, [] => inferInstanceAs (Decidable (_ = _))
  | stack, character :: rest =>
    have := decidableReturnsFrom ((stepAt stack character rest).action.apply stack) rest
    inferInstanceAs (Decidable (_ ∧ _))

instance decidableIsArgument (text : Text) : Decidable (IsArgument text) :=
  inferInstanceAs (Decidable (ReturnsFrom _ _))

theorem stepAt_before_closing (stack : Stack) (character : Char) (rest : Text) :
    stepAt stack character (rest ++ ['}']) = stepAt stack character rest := by
  cases rest with
  | nil => simp [stepAt, transition, textAction]
  | cons next later => rfl

/-- A closing brace behind the text closes the expression, and there the piece ends. -/
theorem ReturnsFrom.closes {stack : Stack} {text : Text} (returns : ReturnsFrom stack text)
    (current : Text) :
    settle stack (text ++ ['}']) = [] ∧
      pieces stack current (text ++ ['}']) = [current ++ text ++ ['}']] := by
  induction text generalizing stack current with
  | nil =>
    obtain rfl : stack = [.expression] := returns
    constructor
    · rfl
    · rw [List.nil_append, pieces_cons_done rfl, List.append_nil]
      rfl
  | cons character rest ih =>
    obtain ⟨isOpen, later⟩ := returns
    obtain ⟨settles, whole⟩ := ih later (current ++ [character])
    rw [← stepAt_before_closing] at isOpen settles whole
    constructor
    · exact settles
    · obtain ⟨inner, below, effect⟩ := List.exists_cons_of_ne_nil isOpen
      rw [effect] at whole
      rw [List.cons_append, pieces_cons_inside effect, whole]
      simp

theorem IsArgument.derives {text : Text} (isArgument : IsArgument text) :
    Derives .expression text := by
  obtain ⟨settles, whole⟩ := isArgument.closes []
  obtain ⟨body, later, same, inside, tail, rfl, -⟩ := unwinds_of_settle _ _ settles
  -- The first brace that closes the expression is the one behind the text.
  have crossed : Crosses ('}' :: tail) [.expression] body [.expression] :=
    inside.crosses [] ('}' :: tail) (by simp) (by simp)
  rw [same, crossed.whole, pieces_cons_done rfl] at whole
  have first := (List.cons.inj whole).1
  simp only [List.nil_append, List.append_cancel_right_eq] at first
  rwa [← first]

theorem derives_append {left right : Text} (first : Derives .expression left)
    (second : Derives .expression right) : Derives .expression (left ++ right) := by
  generalize shape : Form.expression = form at first
  induction first with
  | empty form =>
    rw [← shape]
    exact second
  | escaped character later ih => cases shape
  | placeholder inside later _ ih => cases shape
  | plain isPlain later ih => cases shape
  | bare isBare later ih => exact Derives.bare isBare (ih shape)
  | quoted isQuote inside later ih =>
    have whole := Derives.quoted isQuote inside (ih shape)
    simpa using whole
  | braces inside later _ ih =>
    have whole := Derives.braces inside (ih shape)
    simpa using whole
  | template inside later _ ih =>
    have whole := Derives.template inside (ih shape)
    simpa using whole

theorem derives_intercalate {separator : Text} (isBare : IsBareText separator) (arguments : List Text)
    (inside : ∀ argument ∈ arguments, Derives .expression argument) :
    Derives .expression (List.intercalate separator arguments) := by
  induction arguments with
  | nil => exact Derives.empty _
  | cons first rest ih =>
    rw [List.forall_mem_cons] at inside
    cases rest with
    | nil =>
      rw [List.intercalate_singleton]
      exact inside.1
    | cons next later =>
      rw [List.intercalate_cons_cons]
      exact derives_append (derives_append inside.1 (derives_bare isBare)) (ih inside.2)

theorem derives_listenerText (ordinal : Nat) (arguments : Option (List Text))
    (inside : ∀ expressions, arguments = some expressions →
      ∀ argument ∈ expressions, IsArgument argument) :
    Derives .expression (listenerText (functionName ordinal) arguments) := by
  cases arguments with
  | none =>
    rw [listenerText_none]
    exact derives_call ordinal
  | some expressions =>
    have name : IsBareText (functionName ordinal) :=
      isBareText_append (by decide) (isBareText_numeral ordinal)
    have front : IsBareText ("(event)=>".toList ++ functionName ordinal) :=
      isBareText_append (by decide) name
    have opening : IsBareText ['('] := by decide
    have closing : IsBareText [')'] := by decide
    have separator : IsBareText ", ".toList := by decide
    have list : Derives .expression (List.intercalate ", ".toList expressions) := by
      apply derives_intercalate separator
      intro argument member
      exact (inside expressions rfl argument member).derives
    have call := derives_append (derives_bare front) (derives_append (derives_bare opening) list)
    exact derives_append call (derives_bare closing)

/-- Whatever stands in the place of a placeholder is one closed placeholder: a property value that
is no null, array or object, in either mode; a text between the delimiters of a literal; the
reference of a binding; the call of a listener whose arguments close what they open. -/
theorem placeholders_are_closed :
    (∀ (interpolate : Bool) (name : Text) (value : PropertyValue), value.IsScalar →
      value ≠ .json .null →
      ∃ encoded, encodeProperty interpolate name value = .ok encoded ∧ IsClosed encoded.text) ∧
    (∀ value, IsClosed (encodeExpression literalOpening literalClosing value).text) ∧
    (∀ (registry : Registry ι ω) (provider : Provider ι),
      IsClosed (itemReference (registry.addProperty provider).1)) ∧
    ∀ (registry : Registry ι ω) (listener : Listener ι ω),
      (∀ expressions, listener.arguments = some expressions →
        ∀ argument ∈ expressions, IsArgument argument) →
      IsClosed (placeholder
        (listenerText (registry.addFunction listener.handler).1 listener.arguments)) := by
  refine ⟨isClosed_encodeProperty, isClosed_encodeExpression, ?_, ?_⟩
  · intro registry provider
    exact isClosed_placeholder (derives_reference _)
  · intro registry listener inside
    exact isClosed_placeholder (derives_listenerText registry.nextFunction _ inside)

def quotingListener : Listener Json Text :=
  ⟨fun _ _ => [], some ["\x7b close: '\x7d' \x7d".toList, "\x60$\x7ba\x7d\x7d\x60".toList, [',']]⟩

/-- A value with a backtick before a placeholder and a dollar sign at its end goes between
backticks. -/
theorem tricky_placeholders_are_closed :
    (∃ encoded, encodeProperty true [] (.string "\x60$\x7bx\x7d$".toList) = .ok encoded ∧
      encoded.text = "$\x7b\x60\\\x60$\x7bx\x7d$\x60\x7d".toList ∧ IsClosed encoded.text) ∧
    (∀ expressions, quotingListener.arguments = some expressions →
      ∀ argument ∈ expressions, IsArgument argument) ∧
    IsClosed (placeholder (listenerText (functionName 0) quotingListener.arguments)) := by
  obtain ⟨values, -, -, calls⟩ := @placeholders_are_closed Json Text
  constructor
  · obtain ⟨encoded, expressed, closed⟩ :=
      values true [] (.string "\x60$\x7bx\x7d$".toList) trivial (by intro same; cases same)
    refine ⟨encoded, expressed, ?_, closed⟩
    obtain rfl := Except.ok.inj expressed
    decide
  · have inside : ∀ expressions, quotingListener.arguments = some expressions →
        ∀ argument ∈ expressions, IsArgument argument := by
      intro expressions same
      obtain rfl := Option.some.inj same
      decide
    exact ⟨inside, calls (Registry.ofNamed SortedMap.empty) quotingListener inside⟩

end TreeTemplate
