import TreeTemplate.Text.Basic

/-!
# Entities

Texts and attribute values of markup may spell five characters as entities. The ampersand is
restored last, so that no restored character takes part in another entity.
-/
set_option autoImplicit false

namespace TreeTemplate.Markup

/-- The entities in the order in which they are replaced, each with its character. -/
def entities : List (Text × Char) :=
  [("&lt;".toList, '<'), ("&gt;".toList, '>'), ("&quot;".toList, '\x22'), ("&#39;".toList, '\x27'),
    ("&amp;".toList, '&')]

/-- The text with every entity replaced by its character, one kind of entity after the other. -/
def decodeEntities (text : Text) : Text :=
  entities.foldl (fun decoded entity => Text.replaceAll entity.1 [entity.2] decoded) text

end TreeTemplate.Markup
