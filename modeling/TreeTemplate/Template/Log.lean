import TreeTemplate.Document.Basic
import TreeTemplate.Json.Inspect

/-!
# Log records

What a compile and the handlers of a markup file report. A record is kept as data; its level and
its text are functions of it.
-/
set_option autoImplicit false

namespace TreeTemplate

inductive LogLevel where
  | trace
  | debug
  | info
  | warn
  deriving DecidableEq

def LogLevel.name : LogLevel → Text
  | trace => "TRACE".toList
  | debug => "DEBUG".toList
  | info => "INFO".toList
  | warn => "WARN".toList

/-- One thing that was reported. -/
inductive LogRecord where
  /-- An element changes the interpolation mode it inherits. -/
  | modeChanged (tag : Text) (id : NodeId) (enabled : Bool)
  /-- A text leaves something open and is written as a literal. -/
  | unbalanced (value : Text)
  | synthesized (id : NodeId) (event : Text)
  | compiled (roots size properties functions : Nat)
  /-- A listener declared in markup is called, with its arguments if it has any. -/
  | heard (event : Text) (id : NodeId) (item : Json) (arguments : Option (List Json))
  | buttonClicked (id : NodeId) (item : Json)

namespace LogRecord

def level : LogRecord → LogLevel
  | modeChanged .. | synthesized .. => .trace
  | unbalanced .. => .warn
  | compiled .. => .debug
  | heard .. | buttonClicked .. => .info

def message : LogRecord → Text
  | modeChanged tag id enabled =>
    '<' :: tag ++ "> ".toList ++ id.display ++ ": interpolation ".toList ++
      (if enabled then "enabled".toList else "disabled".toList)
  | unbalanced value =>
    "unbalanced placeholder in ".toList ++ value.quoted ++ ", emitting it as a literal".toList
  | synthesized id event =>
    id.display ++ ": synthesized '".toList ++ event ++ "' listener".toList
  | compiled roots size properties functions =>
    "compiled ".toList ++ Text.numeral roots ++ " root(s) into ".toList ++ Text.numeral size ++
      " bytes, ".toList ++ Text.numeral properties ++ " properties, ".toList ++
      Text.numeral functions ++ " functions".toList
  | heard event id item arguments =>
    event ++ " on ".toList ++ id.display ++ ": item=".toList ++ item.compact ++
      (match arguments with
        | none => []
        | some values => " args=".toList ++ Json.inspectList values)
  | buttonClicked id item =>
    "click on button ".toList ++ id.display ++ ": item=".toList ++ item.compact

end LogRecord

end TreeTemplate
