import TreeTemplate.Placeholder.Scan
import TreeTemplate.Template.Error
import TreeTemplate.Template.Log

/-!
# Encoding content

How texts, attribute values and property values are written in a template. In interpolating
content the placeholders of a text are kept if everything they open is closed; a text that is not
balanced, and all content that is not interpolated, is written as one placeholder that holds a
backtick literal.
-/
set_option autoImplicit false

namespace TreeTemplate

/-- A written text and the records made on the way. -/
structure Encoded where
  text : Text
  records : List LogRecord

def Encoded.silent (text : Text) : Encoded :=
  ⟨text, []⟩

def placeholderOpening : Text := ['$', '{']

def placeholder (expression : Text) : Text :=
  placeholderOpening ++ expression ++ ['}']

/-- One character of a backtick literal: a backslash is doubled, so that it never pairs with the
escape of a backtick or dollar sign after it. -/
def literalCharacter (character : Char) : Text :=
  if character = '\\' || character = '\x60' || character = '$' then ['\\', character]
  else [character]

/-- What opens a placeholder that holds a backtick literal. -/
def literalOpening : Text := ['$', '{', '\x60']

/-- What closes a placeholder that holds a backtick literal. -/
def literalClosing : Text := ['\x60', '}']

/-- The text as a backtick literal in a placeholder, so that nothing in it is interpolated. -/
def encodeLiteral (value : Text) : Text :=
  literalOpening ++ value.flatMap literalCharacter ++ literalClosing

/-- The text with its placeholders kept, as a literal if it leaves something open. -/
def encodeExpression (opening closing value : Text) : Encoded :=
  match Placeholder.enclose? opening closing value with
  | some written => .silent written
  | none => ⟨encodeLiteral value, [.unbalanced value]⟩

/-- Escapes the two characters that would start markup. -/
def escapeMarkup (value : Text) : Text :=
  Text.replaceAll ['<'] "&lt;".toList (Text.replaceAll ['&'] "&amp;".toList value)

/-- The content of a text node whose placeholders, if any, are left to the rendering engine. A text
that opens with a placeholder is kept as it is; a backslash before such an opening is dropped. -/
def encodeCharacterData (value : Text) : Text :=
  match value with
  | '\\' :: '$' :: '{' :: rest => escapeMarkup ('$' :: '{' :: rest)
  | '$' :: '{' :: rest => '$' :: '{' :: rest
  | other => escapeMarkup other

/-- The content of a text node. Without interpolation a text that could be taken for code is a
literal. -/
def encodeText (interpolate : Bool) (value : Text) : Text :=
  if interpolate || (!Text.occurs placeholderOpening value && !value.contains '\x60') then
    encodeCharacterData value
  else encodeLiteral value

/-- An attribute value with its quotes, where placeholders are kept. A value without placeholders
is put between single quotes if it has double quotes only. -/
def encodeInterpolatedValue (value : Text) : Encoded :=
  if Text.occurs placeholderOpening value then encodeExpression ['\x22'] ['\x22'] value
  else
    let escaped := Text.replaceAll ['&'] "&amp;".toList value
    if escaped.contains '\x22' && !escaped.contains '\x27' then
      .silent (['\x27'] ++ escaped ++ ['\x27'])
    else .silent (['\x22'] ++ Text.replaceAll ['\x22'] "&quot;".toList escaped ++ ['\x22'])

def encodeAttributeValue (interpolate : Bool) (value : Text) : Encoded :=
  if interpolate then encodeInterpolatedValue value else .silent (encodeLiteral value)

def encodeStringProperty (interpolate : Bool) (value : Text) : Encoded :=
  if interpolate then encodeExpression literalOpening literalClosing value
  else .silent (encodeLiteral value)

def boolText (value : Bool) : Text :=
  if value then "true".toList else "false".toList

/-- A property value as a placeholder. Null cannot be expressed. -/
def encodeProperty (interpolate : Bool) (name : Text) : PropertyValue → Except TemplateError Encoded
  | .bool value => .ok (.silent (placeholder (boolText value)))
  | .number value => .ok (.silent (placeholder value.scriptText))
  | .string value => .ok (encodeStringProperty interpolate value)
  | .json (.string value) => .ok (encodeStringProperty interpolate value)
  | .json (.bool value) => .ok (.silent (placeholder (boolText value)))
  | .json (.integer value) => .ok (.silent (placeholder (Number.ofInt value).scriptText))
  | .json (.float value) => .ok (.silent (placeholder (Number.finite value).scriptText))
  | .json (.array items) => .ok (.silent (placeholder (Json.array items).compact))
  | .json (.object fields) => .ok (.silent (placeholder (Json.object fields).compact))
  | .json .null => .error (.unsupportedValue name)

end TreeTemplate
