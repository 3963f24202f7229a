import TreeTemplate.Json.Basic

/-!
# Documents

A document owns the nodes of one or more trees and hands out their identities: a node is named by
its position in the order of creation, so an identity never changes its meaning. Changes addressed
to a node of the wrong kind, or to an identity without a node, leave the document as it is.
-/
set_option autoImplicit false

namespace TreeTemplate

/-- The identity of a node: its position in the order of creation. -/
abbrev NodeId := Nat

/-- The written form of an identity. -/
def NodeId.display (id : NodeId) : Text :=
  '#' :: Text.numeral id

inductive PropertyValue where
  | bool (value : Bool)
  | number (value : Number)
  | string (value : Text)
  | json (value : Json)

/-- An element: its tag, its attributes and properties in the order in which their names were first
set, and the identities of its children. A name is set once among the attributes, and once among
the properties. -/
structure Element where
  tag : Text
  attributes : Entries Text Text
  properties : Entries Text PropertyValue
  children : List NodeId
  distinctAttributes : Entries.Distinct attributes
  distinctProperties : Entries.Distinct properties

inductive Node where
  | element (content : Element)
  | text (content : Text)

namespace Node

def element? : Node → Option Element
  | element content => some content
  | text _ => none

def text? : Node → Option Text
  | element _ => none
  | text content => some content

/-- The node with a change made to its element; a text node is left alone. -/
def onElement (change : Element → Element) : Node → Node
  | element content => element (change content)
  | text content => text content

end Node

/-- The nodes of a document in the order of creation. -/
structure Document where
  nodes : List Node

namespace Document

def empty : Document :=
  ⟨[]⟩

instance : Inhabited Document :=
  ⟨empty⟩

/-! ## Queries -/

def size (document : Document) : Nat :=
  document.nodes.length

def hasNode (document : Document) (id : NodeId) : Bool :=
  decide (id < document.size)

def node? (document : Document) (id : NodeId) : Option Node :=
  document.nodes[id]?

def element? (document : Document) (id : NodeId) : Option Element :=
  (document.node? id).bind Node.element?

def text? (document : Document) (id : NodeId) : Option Text :=
  (document.node? id).bind Node.text?

def isText (document : Document) (id : NodeId) : Bool :=
  (document.text? id).isSome

def tag? (document : Document) (id : NodeId) : Option Text :=
  (document.element? id).map Element.tag

/-- The children of an element; other identities have none. -/
def children (document : Document) (id : NodeId) : List NodeId :=
  ((document.element? id).map Element.children).getD []

/-- The attributes of an element in their order; other identities have none. -/
def attributes (document : Document) (id : NodeId) : Entries Text Text :=
  ((document.element? id).map Element.attributes).getD []

/-- The properties of an element in their order; other identities have none. -/
def properties (document : Document) (id : NodeId) : Entries Text PropertyValue :=
  ((document.element? id).map Element.properties).getD []

def attribute? (document : Document) (id : NodeId) (name : Text) : Option Text :=
  Entries.lookup name (document.attributes id)

def property? (document : Document) (id : NodeId) (name : Text) : Option PropertyValue :=
  Entries.lookup name (document.properties id)

/-! ## Changes -/

/-- The document with a node added, and the identity of that node. -/
def addNode (document : Document) (node : Node) : NodeId × Document :=
  (document.size, ⟨document.nodes ++ [node]⟩)

def createElement (document : Document) (tag : Text) : NodeId × Document :=
  document.addNode (.element ⟨tag, [], [], [], Entries.distinct_nil, Entries.distinct_nil⟩)

def createText (document : Document) (content : Text) : NodeId × Document :=
  document.addNode (.text content)

/-- The document with a change made to one of its elements. -/
def onElement (document : Document) (id : NodeId) (change : Element → Element) : Document :=
  ⟨document.nodes.modify id (Node.onElement change)⟩

theorem size_onElement (document : Document) (id : NodeId) (change : Element → Element) :
    (document.onElement id change).size = document.size :=
  List.length_modify ..

theorem node?_onElement_same (document : Document) (id : NodeId) (change : Element → Element) :
    (document.onElement id change).node? id = (document.node? id).map (Node.onElement change) := by
  simp [onElement, node?]

theorem node?_onElement_other (document : Document) {id other : NodeId} (apart : id ≠ other)
    (change : Element → Element) :
    (document.onElement id change).node? other = document.node? other := by
  simp [onElement, node?, apart]

theorem ext_node? {left right : Document} (nodes : ∀ id, left.node? id = right.node? id) :
    left = right :=
  congrArg Document.mk (List.ext_getElem? nodes)

/-- A change that does nothing to the node leaves the document as it is. -/
theorem onElement_eq_self (document : Document) {id : NodeId} {change : Element → Element}
    (unchanged : ∀ node, document.node? id = some node → node.onElement change = node) :
    document.onElement id change = document := by
  apply ext_node?
  intro other
  by_cases same : id = other
  · subst same
    rw [node?_onElement_same]
    cases found : document.node? id with
    | none => rfl
    | some node => exact congrArg some (unchanged node found)
  · exact document.node?_onElement_other same change

/-- Adds a child at the end of the children of an element. -/
def appendChild (document : Document) (parent child : NodeId) : Document :=
  document.onElement parent fun element =>
    { element with children := element.children ++ [child] }

def setAttribute (document : Document) (id : NodeId) (name value : Text) : Document :=
  document.onElement id fun element =>
    { element with
      attributes := Entries.upsert name value element.attributes
      distinctAttributes := Entries.distinct_upsert _ _ _ element.distinctAttributes }

def removeAttribute (document : Document) (id : NodeId) (name : Text) : Document :=
  document.onElement id fun element =>
    { element with
      attributes := Entries.erase name element.attributes
      distinctAttributes := Entries.distinct_erase _ _ element.distinctAttributes }

/-- Sets an attribute to the empty text, or removes it. -/
def setFlag (document : Document) (id : NodeId) (name : Text) (present : Bool) : Document :=
  if present then document.setAttribute id name [] else document.removeAttribute id name

def setProperty (document : Document) (id : NodeId) (name : Text) (value : PropertyValue) : Document :=
  document.onElement id fun element =>
    { element with
      properties := Entries.upsert name value element.properties
      distinctProperties := Entries.distinct_upsert _ _ _ element.distinctProperties }

def removeProperty (document : Document) (id : NodeId) (name : Text) : Document :=
  document.onElement id fun element =>
    { element with
      properties := Entries.erase name element.properties
      distinctProperties := Entries.distinct_erase _ _ element.distinctProperties }

/-! ## Reachability -/

/-- Whether a chain of at most `steps` child links leads from `ancestor` to the node `target`. -/
def reachesWithin (document : Document) (target : NodeId) : Nat → NodeId → Bool
  | 0, ancestor => decide (ancestor = target) && document.hasNode target
  | steps + 1, ancestor =>
    if ancestor = target then document.hasNode target
    else (document.children ancestor).any (document.reachesWithin target steps)

/-- Whether `target` is a node and is `ancestor` itself or below it. A shortest chain of links visits
no element twice, so the number of nodes bounds its length. -/
def contains (document : Document) (ancestor target : NodeId) : Bool :=
  document.reachesWithin target document.size ancestor

end Document

end TreeTemplate
