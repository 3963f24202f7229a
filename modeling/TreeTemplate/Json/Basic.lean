import TreeTemplate.Number.Basic
import TreeTemplate.SortedMap

/-!
# JSON values

The values that items, constants and handler arguments are made of. Integers are kept apart from
floating-point numbers, and the fields of an object are listed in the order of their names.
-/
set_option autoImplicit false

namespace TreeTemplate

inductive Json where
  | null
  | bool (value : Bool)
  | integer (value : Int)
  | float (value : Finite)
  | string (value : Text)
  | array (items : List Json)
  | object (fields : List (Text × Json))

namespace Json

instance : Inhabited Json :=
  ⟨null⟩

def ofMap (fields : SortedMap Text Json) : Json :=
  object fields.entries

/-- The field of an object, null if there is none. -/
def field (name : Text) : Json → Json
  | object fields => (Entries.lookup name fields).getD null
  | _ => null

end Json

end TreeTemplate
