import TreeTemplate.Markup.Reader
import TreeTemplate.Template.Error

/-!
# Markup errors

The reasons for which a markup file is refused, and their texts.
-/
set_option autoImplicit false

namespace TreeTemplate.Markup

/-- Why a markup file is refused. -/
inductive MarkupError where
  /-- The source is not markup; reading got stuck at the position. -/
  | malformed (position : Position)
  /-- The end tag of an element has another name than its start tag. -/
  | mismatchedTag (expected found : Text)
  /-- The kind of a property is none of those that there are. -/
  | unknownKind (name kind : Text)
  | invalidValue (name kind value : Text)
  | interpolationMode (mode : Text)
  | missingValue (sigil : Sigil) (name : Text)
  | empty
  | template (reason : TemplateError)
  deriving DecidableEq

def MarkupError.message : MarkupError → Text
  | malformed _ => "syntax error".toList
  | mismatchedTag expected found =>
    "closing tag </".toList ++ found ++ "> does not match <".toList ++ expected ++ ['>']
  | unknownKind name kind =>
    "property '".toList ++ name ++ "' has unknown type '".toList ++ kind ++ "'".toList
  | invalidValue name kind value =>
    "invalid ".toList ++ kind ++ " value for property '".toList ++ name ++ "': ".toList ++ value
  | interpolationMode mode =>
    "lite:interpolation expects 'on' or 'off', got '".toList ++ mode ++ "'".toList
  | missingValue sigil name =>
    "'".toList ++ sigil.text ++ name ++ "' needs a value".toList
  | empty => "the markup contains no elements or text".toList
  | template reason => reason.message

end TreeTemplate.Markup
