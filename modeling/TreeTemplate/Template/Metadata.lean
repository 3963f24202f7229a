import TreeTemplate.Binding.Bindings
import TreeTemplate.Template.Error

/-!
# Node metadata

What is attached to the nodes of a document for the compiler: interpolation overrides, dynamic
attributes and properties, and listeners. It is kept beside the document, by node identity, and a
node without an entry has none of these.
-/
set_option autoImplicit false

namespace TreeTemplate

/-- The interpolation override of an element. -/
inductive Interpolation where
  /-- The mode of the parent holds. -/
  | inherit
  | enabled
  | disabled
  deriving DecidableEq

/-- Whether an element with this override is interpolated, given the mode of its parent. -/
def Interpolation.resolve (inherited : Bool) : Interpolation → Bool
  | inherit => inherited
  | enabled => true
  | disabled => false

/-- A handler and, unless it is called with the event alone, its argument expressions. -/
structure Listener (ι ω : Type) where
  handler : Handler ι ω
  arguments : Option (List Text)

/-- What is attached to one node. -/
structure NodeMetadata (ι ω : Type) where
  interpolation : Interpolation
  attributes : SortedMap Text (Provider ι)
  properties : SortedMap Text (Provider ι)
  listeners : SortedMap Text (Listener ι ω)

namespace NodeMetadata

variable {ι ω : Type}

def bare : NodeMetadata ι ω :=
  ⟨.inherit, SortedMap.empty, SortedMap.empty, SortedMap.empty⟩

instance : Inhabited (NodeMetadata ι ω) :=
  ⟨bare⟩

/-- Attaches a listener, unless there is one for the event. -/
def addListener (metadata : NodeMetadata ι ω) (event : Text) (listener : Listener ι ω) :
    Except TemplateError (NodeMetadata ι ω) :=
  if metadata.listeners.has event then .error (.duplicateListener event)
  else .ok { metadata with listeners := metadata.listeners.insert event listener }

end NodeMetadata

abbrev Metadata (ι ω : Type) := SortedMap NodeId (NodeMetadata ι ω)

namespace Metadata

variable {ι ω : Type}

/-- The metadata of a node, bare if nothing was ever attached to it. -/
def ofNode (metadata : Metadata ι ω) (id : NodeId) : NodeMetadata ι ω :=
  (metadata.find? id).getD .bare

def interpolation (metadata : Metadata ι ω) (id : NodeId) : Interpolation :=
  (metadata.ofNode id).interpolation

end Metadata

end TreeTemplate
