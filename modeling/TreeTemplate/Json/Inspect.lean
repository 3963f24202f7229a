import TreeTemplate.Json.Printer

/-!
# Showing JSON values in log records

The form in which a log record shows values: each with the name of its kind, and texts quoted.
-/
set_option autoImplicit false

namespace TreeTemplate.Json

mutual

def inspect : Json → Text
  | null => "Null".toList
  | bool value => "Bool(".toList ++ (if value then "true".toList else "false".toList) ++ [')']
  | integer value => "Number(".toList ++ integerText value ++ [')']
  | float value => "Number(".toList ++ value.render jsonStyle ++ [')']
  | string value => "String(".toList ++ Text.quoted value ++ [')']
  | array items => "Array [".toList ++ inspectItems items ++ [']']
  | object fields => "Object ".toList ++ '{' :: (inspectFields fields ++ ['}'])

/-- The items with a comma and a space between neighbours. -/
def inspectItems : List Json → Text
  | [] => []
  | [item] => inspect item
  | item :: next :: rest => inspect item ++ ',' :: ' ' :: inspectItems (next :: rest)

/-- The fields with a comma and a space between neighbours. -/
def inspectFields : List (Text × Json) → Text
  | [] => []
  | [(name, value)] => Text.quoted name ++ ':' :: ' ' :: inspect value
  | (name, value) :: next :: rest =>
    Text.quoted name ++ ':' :: ' ' :: inspect value ++ ',' :: ' ' :: inspectFields (next :: rest)

end

def inspectList (values : List Json) : Text :=
  '[' :: (inspectItems values ++ [']'])

end TreeTemplate.Json
