import TreeTemplate.Document.Basic

/-!
# Template errors

The reasons for which a template cannot be built, changed or compiled, and their texts.
-/
set_option autoImplicit false

namespace TreeTemplate

/-- Why an operation on a template fails. -/
inductive TemplateError where
  | alreadyCompiled
  | duplicateListener (event : Text)
  /-- The node is not reached from any root. -/
  | foreignNode (id : NodeId)
  /-- The node is a text, and bindings belong to elements. -/
  | textNode (id : NodeId)
  | unknownNode (id : NodeId)
  /-- The property holds a value that a template cannot express. -/
  | unsupportedValue (name : Text)
  | emptyTemplate
  /-- The element is nested deeper than there are nodes, so it contains itself. -/
  | endlessNesting (id : NodeId)
  deriving DecidableEq

def TemplateError.message : TemplateError → Text
  | alreadyCompiled => "template builder has already been compiled".toList
  | duplicateListener event =>
    "a listener for the event type '".toList ++ event ++
      "' is already registered on the specified node".toList
  | foreignNode id => "node ".toList ++ id.display ++ " is not a child of the template".toList
  | textNode id => "node ".toList ++ id.display ++ " is a text node".toList
  | unknownNode id => "node ".toList ++ id.display ++ " does not exist in the document".toList
  | unsupportedValue name =>
    "property '".toList ++ name ++ "' has a value of unsupported kind".toList
  | emptyTemplate => "a template needs at least one root node".toList
  | endlessNesting id => "node ".toList ++ id.display ++ " contains itself".toList

end TreeTemplate
