import TreeTemplate.Placeholder.Scan

/-!
# A grammar of texts with placeholders

What the scanner accepts, said without a stack. A text is a row of items: an escaped character, a
placeholder, or a plain character. A placeholder holds an expression, and an expression holds
quoted runs, braces around expressions, and backticks around rows of items that are free of plain
backticks.

`Derives` is the grammar itself. `Item` keeps what a derivation of a row says about each piece of
the text; `IsRow` says which lists of items are the pieces of a derivation.
-/
set_option autoImplicit false

namespace TreeTemplate.Placeholder

inductive Form where
  | items (nested : Bool)
  | expression
  deriving DecidableEq

/-- A character that stands for itself in a row of items, given the row behind it. -/
def IsPlain (nested : Bool) (character : Char) (rest : Text) : Prop :=
  character ≠ '\\' ∧ ¬(character = '$' ∧ rest.head? = some '{') ∧
    (nested = true → character ≠ '\x60')

def IsBare (character : Char) : Prop :=
  character ≠ '\x22' ∧ character ≠ '\x27' ∧ character ≠ '\x60' ∧ character ≠ '{' ∧ character ≠ '}'

def IsQuote (character : Char) : Prop :=
  character = '\x22' ∨ character = '\x27'

instance decidableIsBare (character : Char) : Decidable (IsBare character) :=
  inferInstanceAs (Decidable (_ ∧ _ ∧ _ ∧ _ ∧ _))

/-- The grammar. A backslash has no meaning in an expression or in a quoted run. -/
inductive Derives : Form → Text → Prop where
  | empty (form : Form) : Derives form []
  | escaped {nested : Bool} {rest : Text} (character : Char)
      (later : Derives (.items nested) rest) :
      Derives (.items nested) ('\\' :: character :: rest)
  | placeholder {nested : Bool} {body rest : Text} (inside : Derives .expression body)
      (later : Derives (.items nested) rest) :
      Derives (.items nested) ('$' :: '{' :: (body ++ '}' :: rest))
  | plain {nested : Bool} {character : Char} {rest : Text} (isPlain : IsPlain nested character rest)
      (later : Derives (.items nested) rest) :
      Derives (.items nested) (character :: rest)
  | bare {character : Char} {rest : Text} (isBare : IsBare character)
      (later : Derives .expression rest) :
      Derives .expression (character :: rest)
  | quoted {quote : Char} {run rest : Text} (isQuote : IsQuote quote) (inside : quote ∉ run)
      (later : Derives .expression rest) :
      Derives .expression (quote :: (run ++ quote :: rest))
  | braces {body rest : Text} (inside : Derives .expression body)
      (later : Derives .expression rest) :
      Derives .expression ('{' :: (body ++ '}' :: rest))
  | template {body rest : Text} (inside : Derives (.items true) body)
      (later : Derives .expression rest) :
      Derives .expression ('\x60' :: (body ++ '\x60' :: rest))

def IsPlaceholder (text : Text) : Prop :=
  ∃ body, Derives .expression body ∧ text = '$' :: '{' :: (body ++ ['}'])

inductive Item where
  | escaped (character : Char)
  | placeholder (body : Text)
  | plain (character : Char)
  deriving DecidableEq

namespace Item

def source : Item → Text
  | escaped character => ['\\', character]
  | placeholder body => '$' :: '{' :: (body ++ ['}'])
  | plain character => [character]

def written : Item → Text
  | plain character => if character = '\x60' then ['\\', character] else [character]
  | item => item.source

def body? : Item → Option Text
  | placeholder body => some body
  | _ => none

end Item

def sources (items : List Item) : Text :=
  items.flatMap Item.source

/-- The text of a row with its own backticks escaped. -/
def writtenRow (items : List Item) : Text :=
  items.flatMap Item.written

def bodies (items : List Item) : List Text :=
  items.filterMap Item.body?

def Item.Fits (nested : Bool) (rest : Text) : Item → Prop
  | escaped _ => True
  | placeholder body => Derives .expression body
  | plain character => IsPlain nested character rest

def IsRow (nested : Bool) : List Item → Prop
  | [] => True
  | item :: rest => item.Fits nested (sources rest) ∧ IsRow nested rest

@[simp] theorem sources_nil : sources [] = [] := rfl

@[simp] theorem sources_cons (item : Item) (rest : List Item) :
    sources (item :: rest) = item.source ++ sources rest := rfl

@[simp] theorem writtenRow_nil : writtenRow [] = [] := rfl

@[simp] theorem writtenRow_cons (item : Item) (rest : List Item) :
    writtenRow (item :: rest) = item.written ++ writtenRow rest := rfl

theorem source_injective (left right : Item) (same : left.source = right.source) : left = right := by
  cases left <;> cases right <;> simp_all [Item.source]

theorem derives_of_isRow (nested : Bool) (items : List Item) (row : IsRow nested items) :
    Derives (.items nested) (sources items) := by
  induction items with
  | nil => exact Derives.empty _
  | cons item rest ih =>
    obtain ⟨fits, later⟩ := row
    cases item with
    | escaped character => exact Derives.escaped character (ih later)
    | placeholder body =>
      have derived := Derives.placeholder fits (ih later)
      simpa [Item.source] using derived
    | plain character => exact Derives.plain fits (ih later)

theorem isRow_of_derives (nested : Bool) (text : Text) (derivation : Derives (.items nested) text) :
    ∃ items, IsRow nested items ∧ sources items = text := by
  generalize shape : Form.items nested = form at derivation
  induction derivation with
  | empty form => exact ⟨[], trivial, rfl⟩
  | escaped character later ih =>
    obtain ⟨items, row, same⟩ := ih shape
    exact ⟨.escaped character :: items, ⟨trivial, row⟩, by simp [Item.source, same]⟩
  | @placeholder _ body rest inside later _ ih =>
    obtain ⟨items, row, same⟩ := ih shape
    exact ⟨.placeholder body :: items, ⟨inside, row⟩, by simp [Item.source, same]⟩
  | @plain _ character rest isPlain later ih =>
    obtain ⟨items, row, same⟩ := ih shape
    obtain rfl : nested = _ := by simpa using shape
    have fits : IsPlain nested character (sources items) := by rwa [same]
    exact ⟨.plain character :: items, ⟨fits, row⟩, by simp [Item.source, same]⟩
  | bare isBare later ih => cases shape
  | quoted isQuote inside later ih => cases shape
  | braces inside later _ ih => cases shape
  | template inside later _ ih => cases shape

/-- The derivable texts are those that split into a row of items. -/
theorem derives_items_iff (nested : Bool) (text : Text) :
    Derives (.items nested) text ↔ ∃ items, IsRow nested items ∧ sources items = text := by
  constructor
  · exact isRow_of_derives nested text
  · rintro ⟨items, row, rfl⟩
    exact derives_of_isRow nested items row

end TreeTemplate.Placeholder
