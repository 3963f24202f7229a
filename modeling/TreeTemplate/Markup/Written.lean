import TreeTemplate.Text.Basic

/-!
# Markup as it is written

The trees of a markup file before anything in them is interpreted: tags, attribute items with their
sigils, values without their quotes, and texts with their entities and outer blanks.
-/
set_option autoImplicit false

namespace TreeTemplate.Markup

/-- The mark before the name of an attribute item, which says what the item declares. -/
inductive Sigil where
  /-- No mark: a literal attribute. -/
  | bare
  /-- `:` binds an attribute. -/
  | bindAttribute
  /-- `:.` binds a property. -/
  | bindProperty
  /-- `@` declares a listener. -/
  | listen
  /-- `.` sets a property. -/
  | setProperty
  deriving DecidableEq

def Sigil.text : Sigil → Text
  | bare => []
  | bindAttribute => [':']
  | bindProperty => [':', '.']
  | listen => ['@']
  | setProperty => ['.']

structure Item where
  sigil : Sigil
  name : Text
  value : Option Text
  deriving DecidableEq

/-- A piece of markup. -/
inductive Written where
  /-- A run of characters other than `<`. -/
  | text (raw : Text)
  | void (tag : Text) (items : List Item)
  /-- A start tag, what it encloses, and the name in the end tag. -/
  | paired (tag : Text) (items : List Item) (children : List Written) (closing : Text)

end TreeTemplate.Markup
