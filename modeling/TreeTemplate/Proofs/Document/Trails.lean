import TreeTemplate.Proofs.Document.Reachability

/-!
# Trails

A trail lists a node and the elements around it, from the inside out. A node that is shared has a
trail for each way that leads to it. What is inherited depends on the trail alone.
-/
set_option autoImplicit false

namespace TreeTemplate.Document

def following (document : Document) (roots : List NodeId) : List NodeId → List NodeId
  | [] => roots
  | parent :: _ => document.children parent

/-- A way up from an identity through the elements around it to a root. The empty trail stands for
what is around the roots. -/
inductive Trail (document : Document) (roots : List NodeId) : List NodeId → Prop where
  | outside : Trail document roots []
  | step {outer : List NodeId} {id : NodeId} (above : Trail document roots outer)
      (follows : id ∈ document.following roots outer) : Trail document roots (id :: outer)

def UniqueTrails (document : Document) (roots : List NodeId) : Prop :=
  ∀ id left right, document.hasNode id = true → document.Trail roots (id :: left) →
    document.Trail roots (id :: right) → left = right

section Trails
variable {document : Document} {roots : List NodeId}

theorem Trail.outer {id : NodeId} {outer : List NodeId}
    (trail : document.Trail roots (id :: outer)) : document.Trail roots outer := by
  cases trail with
  | step above follows => exact above

theorem Trail.follows {id : NodeId} {outer : List NodeId}
    (trail : document.Trail roots (id :: outer)) : id ∈ document.following roots outer := by
  cases trail with
  | step above follows => exact follows

theorem Trail.reached {id : NodeId} {outer : List NodeId}
    (trail : document.Trail roots (id :: outer)) : ∃ root ∈ roots, document.Reaches root id := by
  induction outer generalizing id with
  | nil => exact ⟨id, trail.follows, Relation.ReflTransGen.refl⟩
  | cons parent outer ih =>
    obtain ⟨root, isRoot, reaches⟩ := ih trail.outer
    exact ⟨root, isRoot, reaches.tail trail.follows⟩

theorem hasNode_of_isElement {id : NodeId} (isElement : (document.element? id).isSome = true) :
    document.hasNode id = true := by
  cases found : document.node? id with
  | none => simp [element?, found] at isElement
  | some node => exact hasNode_of_node? found

/-- What stands around something is an element. -/
theorem Trail.isElement {id parent : NodeId} {outer : List NodeId}
    (trail : document.Trail roots (id :: parent :: outer)) :
    (document.element? parent).isSome = true := by
  have isChild : id ∈ document.children parent := trail.follows
  cases found : document.element? parent with
  | none => simp [children, found] at isChild
  | some element => rfl

/-- A document in which every identity is the child of one element at most, and a root of none,
shares no node. -/
theorem uniqueTrails_of_parents
    (roots_free : ∀ root ∈ roots, ∀ parent < document.size, root ∉ document.children parent)
    (alone : ∀ parent < document.size, ∀ child ∈ document.children parent,
      ∀ other < document.size, child ∈ document.children other → parent = other) :
    document.UniqueTrails roots := by
  have isSmall {parent child : NodeId} (isChild : child ∈ document.children parent) :
      parent < document.size := of_decide_eq_true (hasNode_of_mem_children isChild)
  rintro id left right - first second
  induction left generalizing id right with
  | nil =>
    cases right with
    | nil => rfl
    | cons parent outer =>
      have isChild : id ∈ document.children parent := second.follows
      exact absurd isChild (roots_free id first.follows parent (isSmall isChild))
  | cons parent outer ih =>
    have isChild : id ∈ document.children parent := first.follows
    cases right with
    | nil => exact absurd isChild (roots_free id second.follows parent (isSmall isChild))
    | cons other around =>
      have isOthers : id ∈ document.children other := second.follows
      obtain rfl := alone parent (isSmall isChild) id isChild other (isSmall isOthers) isOthers
      rw [ih parent around first.outer second.outer]

end Trails

end TreeTemplate.Document
