import TreeTemplate.Json.Basic

/-!
# Bindings

A compiled template refers to values and functions by name; its bindings say what the names stand
for. A provider computes a value from the rendered item. A handler is called with the item and the
values of its arguments; what a call amounts to is left open as a type of outcomes.
-/
set_option autoImplicit false

namespace TreeTemplate

/-- Computes a value from an item. -/
abbrev Provider (ι : Type) := ι → Json

/-- Receives an item and the values of the arguments. -/
abbrev Handler (ι ω : Type) := ι → List Json → ω

/-- The provider of a field of a JSON item, null where the item has no such field. -/
def fieldProvider (name : Text) : Provider Json :=
  Json.field name

/-- The values and functions that a template refers to. -/
structure Bindings (ι ω : Type) where
  properties : SortedMap Text (Provider ι)
  functions : SortedMap Text (Handler ι ω)

namespace Bindings

variable {ι ω : Type}

def resolve (bindings : Bindings ι ω) (item : ι) : SortedMap Text Json :=
  bindings.properties.map fun provider => provider item

/-- The outcome of calling a function, if there is one of that name. -/
def invoke (bindings : Bindings ι ω) (name : Text) (item : ι) (arguments : List Json) : Option ω :=
  (bindings.functions.find? name).map fun handler => handler item arguments

end Bindings

end TreeTemplate
