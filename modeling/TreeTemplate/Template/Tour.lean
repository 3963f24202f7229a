import TreeTemplate.Template.Metadata

/-!
# Tours

A tour lists what a compile passes on its way through a document: every element twice, when it is
entered and when it is left, and every text once, in pre-order. A node that is shared by several
parents is passed once for each path to it. The interpolation mode is handed down on the way.
-/
set_option autoImplicit false

namespace TreeTemplate

/-- One thing on the way. The depth counts the elements around it. -/
inductive Stop where
  /-- A text, in the mode of its parent. -/
  | text (depth : Nat) (interpolate : Bool) (content : Text)
  /-- The start of an element, with the mode it inherits and the mode it has. -/
  | enter (depth : Nat) (id : NodeId) (element : Element) (inherited interpolate : Bool)
  /-- The end of an element, which is childless or not. -/
  | leave (depth : Nat) (tag : Text) (childless : Bool)
  /-- An identity that belongs to no node. -/
  | missing (id : NodeId)
  /-- An element with more elements around it than the document has. -/
  | endless (id : NodeId)

namespace Document

/-- The tour from one node, with a bound on the elements that may be nested in one another. -/
def tourFrom (document : Document) (modes : NodeId → Interpolation) :
    Nat → Nat → Bool → NodeId → List Stop
  | bound, depth, inherited, id =>
    match document.node? id with
    | none => [.missing id]
    | some (.text content) => [.text depth inherited content]
    | some (.element element) =>
      match bound with
      | 0 => [.endless id]
      | rest + 1 =>
        let interpolate := (modes id).resolve inherited
        .enter depth id element inherited interpolate ::
          (element.children.flatMap (document.tourFrom modes rest (depth + 1) interpolate) ++
            [.leave depth element.tag element.children.isEmpty])

/-- The tour over several roots, each in interpolating mode. Where no element contains itself, the
number of nodes bounds the nesting. -/
def tour (document : Document) (modes : NodeId → Interpolation) (roots : List NodeId) : List Stop :=
  roots.flatMap (document.tourFrom modes document.size 0 true)

end Document

end TreeTemplate
