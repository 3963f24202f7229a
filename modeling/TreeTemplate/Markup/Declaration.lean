import TreeTemplate.Json.Reader
import TreeTemplate.Markup.Arguments
import TreeTemplate.Markup.Entity
import TreeTemplate.Markup.Error

/-!
# What the items of a tag declare

An item declares a literal attribute, a typed property, or a directive: a binding, a listener or an
interpolation mode. Literals belong to the tree; directives are applied once the tree is complete.
-/
set_option autoImplicit false

namespace TreeTemplate.Markup

/-- A binding, listener or mode that is declared on an element. -/
inductive Directive where
  | bindAttribute (name field : Text)
  | bindProperty (name field : Text)
  | listen (event : Text) (arguments : Option (List Text))
  | interpolate (enabled : Bool)
  deriving DecidableEq

/-- What one item declares. -/
inductive Declaration where
  | setAttribute (name value : Text)
  | setProperty (name : Text) (value : PropertyValue)
  | directive (content : Directive)

/-- The name and the kind in the name of a property item: the kind follows the first colon, and is
`string` if there is none. -/
def splitKind (name : Text) : Text × Text :=
  match name.dropWhile (· ≠ ':') with
  | [] => (name, "string".toList)
  | _ :: kind => (name.takeWhile (· ≠ ':'), kind)

def typedValue (name kind value : Text) : Except MarkupError PropertyValue :=
  let invalid : Except MarkupError PropertyValue := .error (.invalidValue name kind value)
  if kind = "string".toList then .ok (.string value)
  else if kind = "bool".toList then
    if value = "true".toList then .ok (.bool true)
    else if value = "false".toList then .ok (.bool false)
    else invalid
  else if kind = "number".toList then
    match Number.read? (Text.trim value) with
    | some number => .ok (.number number)
    | none => invalid
  else if kind = "json".toList then
    match Json.read? value with
    | some json => .ok (.json json)
    | none => invalid
  else .error (.unknownKind name kind)

def interpolationItem : Text := "lite:interpolation".toList

/-- The mode that the value of an interpolation item names. -/
def readMode (value : Text) : Except MarkupError Bool :=
  if value = "on".toList then .ok true
  else if value = "off".toList then .ok false
  else .error (.interpolationMode value)

namespace Item

def decodedValue? (item : Item) : Option Text :=
  item.value.map decodeEntities

def neededValue (item : Item) : Except MarkupError Text :=
  match item.decodedValue? with
  | some value => .ok value
  | none => .error (.missingValue item.sigil item.name)

def declare (item : Item) : Except MarkupError Declaration :=
  match item.sigil with
  | .bindAttribute => do
    let field ← item.neededValue
    return .directive (.bindAttribute item.name field)
  | .bindProperty => do
    let field ← item.neededValue
    return .directive (.bindProperty item.name field)
  | .listen => .ok (.directive (.listen item.name (item.decodedValue?.map splitArguments)))
  | .setProperty => do
    let value ← item.neededValue
    let (name, kind) := splitKind item.name
    let typed ← typedValue name kind value
    return .setProperty name typed
  | .bare =>
    if item.name = interpolationItem then do
      let value ← item.neededValue
      let enabled ← readMode value
      return .directive (.interpolate enabled)
    else .ok (.setAttribute item.name (item.decodedValue?.getD []))

/-- What several items declare, or the error of the first that is wrong. -/
def declareAll : List Item → Except MarkupError (List Declaration)
  | [] => .ok []
  | first :: rest => do
    let declaration ← first.declare
    let later ← declareAll rest
    return declaration :: later

end Item

/-! ## Trees of declarations -/

/-- A piece of markup with everything in it interpreted. -/
inductive Declared where
  | text (content : Text)
  | element (tag : Text) (declarations : List Declaration) (children : List Declared)

mutual

/-- Interprets a piece of markup. A text of blanks only is nothing. Errors are found in the order of
the source: the items of a tag, then what the element encloses, then its end tag. -/
def Written.interpret : Written → Except MarkupError (Option Declared)
  | .text raw =>
    let content := Text.trim raw
    .ok (if content.isEmpty then none else some (.text (decodeEntities content)))
  | .void tag items => do
    let declarations ← Item.declareAll items
    return some (.element tag declarations [])
  | .paired tag items children closing => do
    let declarations ← Item.declareAll items
    let inner ← interpretAll children
    if closing = tag then return some (.element tag declarations inner)
    else throw (.mismatchedTag tag closing)

/-- Interprets several pieces of markup, leaving out those that are nothing. -/
def Written.interpretAll : List Written → Except MarkupError (List Declared)
  | [] => .ok []
  | first :: rest => do
    let piece ← first.interpret
    let later ← interpretAll rest
    return piece.toList ++ later

end

end TreeTemplate.Markup
