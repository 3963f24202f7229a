import TreeTemplate.Document.Basic

/-!
# Blueprints

A blueprint describes a tree before any document holds it. Building it adds its nodes to a
document, each parent before its children, so that the identities follow the tree in pre-order.
-/
set_option autoImplicit false

namespace TreeTemplate

/-- A tree of elements and texts. Attributes and properties may repeat a name. -/
inductive Blueprint where
  | element (tag : Text) (attributes : Entries Text Text)
      (properties : Entries Text PropertyValue) (children : List Blueprint)
  | text (content : Text)

instance : Inhabited Blueprint :=
  ⟨.text []⟩

namespace Document

/-- Adds an element with its attributes and then its properties set in order. -/
def createFilled (document : Document) (tag : Text) (attributes : Entries Text Text)
    (properties : Entries Text PropertyValue) : NodeId × Document :=
  let (id, bare) := document.createElement tag
  let withAttributes := attributes.foldl
    (fun current pair => current.setAttribute id pair.1 pair.2) bare
  let filled := properties.foldl
    (fun current pair => current.setProperty id pair.1 pair.2) withAttributes
  (id, filled)

mutual

/-- Adds the nodes of a blueprint. Returns the identity of its root. -/
def build (document : Document) : Blueprint → NodeId × Document
  | .text content => document.createText content
  | .element tag attributes properties children =>
    let (id, filled) := document.createFilled tag attributes properties
    (id, filled.buildChildren id children)

/-- Adds the nodes of several blueprints as children of one element. -/
def buildChildren (document : Document) (parent : NodeId) : List Blueprint → Document
  | [] => document
  | child :: rest =>
    let (id, grown) := document.build child
    (grown.appendChild parent id).buildChildren parent rest

end

/-- Adds the nodes of several blueprints. Returns the identities of their roots. -/
def buildAll (document : Document) : List Blueprint → List NodeId × Document
  | [] => ([], document)
  | first :: rest =>
    let (id, grown) := document.build first
    let (ids, complete) := grown.buildAll rest
    (id :: ids, complete)

end Document

end TreeTemplate
