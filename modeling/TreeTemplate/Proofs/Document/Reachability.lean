import Mathlib.Data.List.Nodup
import Mathlib.Data.List.Perm.Subperm
import TreeTemplate.Proofs.Document.Walk

/-!
# Reachability

The bounded search for a node below another one finds every node that some chain of links leads to.
A chain that visits a node twice can be cut short, and a chain without repetition is no longer than
there are nodes. Where no element at or below the roots contains itself, no chain has a repetition,
so that a tour stays within its bound.
-/
set_option autoImplicit false

namespace TreeTemplate.Document

variable {document : Document} {target : NodeId}

/-- The identities after `here` on a chain of links to the target. -/
def IsPath (document : Document) (target : NodeId) : NodeId → List NodeId → Prop
  | here, [] => here = target
  | here, next :: rest => next ∈ document.children here ∧ IsPath document target next rest

theorem hasNode_of_mem_children {parent child : NodeId}
    (isChild : child ∈ document.children parent) : document.hasNode parent = true := by
  cases found : document.node? parent with
  | none => simp [children, element?, found] at isChild
  | some node => exact hasNode_of_node? found

theorem IsPath.behind {here : NodeId} {path : List NodeId} (isPath : IsPath document target here path)
    (distinct : (here :: path).Nodup) (identity : NodeId) (member : identity ∈ here :: path) :
    ∃ shorter, IsPath document target identity shorter ∧ (identity :: shorter).Nodup := by
  induction path generalizing here with
  | nil =>
    obtain rfl : identity = here := by simpa using member
    exact ⟨[], isPath, distinct⟩
  | cons next rest ih =>
    rcases List.mem_cons.mp member with same | later
    · subst same
      exact ⟨next :: rest, isPath, distinct⟩
    · exact ih isPath.2 (List.nodup_cons.mp distinct).2 later

/-- A chain of links can be taken without repetition. -/
theorem exists_distinct_path {ancestor : NodeId} (reaches : document.Reaches ancestor target) :
    ∃ path, IsPath document target ancestor path ∧ (ancestor :: path).Nodup := by
  induction reaches using Relation.ReflTransGen.head_induction_on with
  | refl => exact ⟨[], rfl, List.nodup_singleton target⟩
  | @head parent child isChild _ ih =>
    obtain ⟨path, isPath, distinct⟩ := ih
    by_cases repeated : parent ∈ child :: path
    · exact isPath.behind distinct parent repeated
    · exact ⟨child :: path, ⟨isChild, isPath⟩, List.nodup_cons.mpr ⟨repeated, distinct⟩⟩

theorem IsPath.hasNode {here : NodeId} {path : List NodeId}
    (isPath : IsPath document target here path) (isNode : document.hasNode target = true)
    (identity : NodeId) (member : identity ∈ here :: path) : document.hasNode identity = true := by
  induction path generalizing here with
  | nil =>
    obtain rfl : identity = here := by simpa using member
    rwa [show identity = target from isPath]
  | cons next rest ih =>
    rcases List.mem_cons.mp member with same | later
    · subst same
      exact hasNode_of_mem_children isPath.1
    · exact ih isPath.2 later

/-- A path without repetition has at most as many identities as there are nodes. -/
theorem IsPath.length_lt {here : NodeId} {path : List NodeId}
    (isPath : IsPath document target here path) (isNode : document.hasNode target = true)
    (distinct : (here :: path).Nodup) : path.length < document.size := by
  have allNodes : (here :: path) ⊆ List.range document.size := by
    intro identity member
    rw [List.mem_range]
    exact of_decide_eq_true (isPath.hasNode isNode identity member)
  have short := (List.subperm_of_subset distinct allNodes).length_le
  rw [List.length_cons, List.length_range] at short
  omega

theorem reachesWithin_of_isPath (isNode : document.hasNode target = true) (steps : Nat)
    (here : NodeId) (path : List NodeId) (isPath : IsPath document target here path)
    (short : path.length ≤ steps) : document.reachesWithin target steps here = true := by
  induction steps generalizing here path with
  | zero =>
    obtain rfl := List.length_eq_zero_iff.mp (Nat.le_zero.mp short)
    simp [reachesWithin, show here = target from isPath, isNode]
  | succ steps ih =>
    rw [reachesWithin]
    split
    · exact isNode
    · rename_i apart
      cases path with
      | nil => exact absurd isPath apart
      | cons next rest =>
        rw [List.length_cons] at short
        exact List.any_eq_true.mpr ⟨next, isPath.1, ih next rest isPath.2 (by omega)⟩

theorem reaches_of_reachesWithin (steps : Nat) (ancestor : NodeId)
    (found : document.reachesWithin target steps ancestor = true) :
    document.Reaches ancestor target ∧ document.hasNode target = true := by
  induction steps generalizing ancestor with
  | zero =>
    rw [reachesWithin, Bool.and_eq_true, decide_eq_true_iff] at found
    obtain ⟨rfl, isNode⟩ := found
    exact ⟨Relation.ReflTransGen.refl, isNode⟩
  | succ steps ih =>
    rw [reachesWithin] at found
    split at found
    · rename_i same
      subst same
      exact ⟨Relation.ReflTransGen.refl, found⟩
    · obtain ⟨child, isChild, deeper⟩ := List.any_eq_true.mp found
      obtain ⟨reaches, isNode⟩ := ih child deeper
      exact ⟨Relation.ReflTransGen.head isChild reaches, isNode⟩

theorem contains_iff (ancestor : NodeId) :
    document.contains ancestor target = true ↔
      document.Reaches ancestor target ∧ document.hasNode target = true := by
  constructor
  · exact reaches_of_reachesWithin document.size ancestor
  · rintro ⟨reaches, isNode⟩
    obtain ⟨path, isPath, distinct⟩ := exists_distinct_path reaches
    have short := isPath.length_lt isNode distinct
    exact reachesWithin_of_isPath isNode document.size ancestor path isPath (by omega)

def AcyclicBelow (document : Document) (roots : List NodeId) : Prop :=
  ∀ root ∈ roots, ∀ id, document.Reaches root id →
    ¬Relation.TransGen (fun parent child => child ∈ document.children parent) id id

/-- Whether a document is acyclic depends on the children only. -/
theorem AcyclicBelow.congr {other : Document} {roots : List NodeId}
    (acyclic : document.AcyclicBelow roots) (same : other.children = document.children) :
    other.AcyclicBelow roots := by
  unfold AcyclicBelow Reaches at acyclic ⊢
  rwa [same]

/-- A document is acyclic if every child was created after its parent. -/
theorem acyclicBelow_of_forward (roots : List NodeId)
    (forward : ∀ parent < document.size, ∀ child ∈ document.children parent, parent < child) :
    document.AcyclicBelow roots := by
  intro root isRoot id reaches cycle
  have later (first last : NodeId)
      (below : Relation.TransGen (fun parent child => child ∈ document.children parent) first last) :
      first < last := by
    induction below with
    | single isChild => exact forward _ (of_decide_eq_true (hasNode_of_mem_children isChild)) _ isChild
    | tail _ isChild ih =>
      exact Nat.lt_trans ih
        (forward _ (of_decide_eq_true (hasNode_of_mem_children isChild)) _ isChild)
  exact Nat.lt_irrefl id (later id id cycle)

theorem IsPath.below {here : NodeId} {path : List NodeId}
    (isPath : IsPath document target here path) (identity : NodeId) (member : identity ∈ path) :
    Relation.TransGen (fun parent child => child ∈ document.children parent) here identity := by
  induction path generalizing here with
  | nil => cases member
  | cons next rest ih =>
    rcases List.mem_cons.mp member with same | later
    · exact Relation.TransGen.single (same ▸ isPath.1)
    · exact Relation.TransGen.head isPath.1 (ih isPath.2 later)

theorem IsPath.distinct {here : NodeId} {path : List NodeId}
    (isPath : IsPath document target here path)
    (acyclic : ∀ id, document.Reaches here id →
      ¬Relation.TransGen (fun parent child => child ∈ document.children parent) id id) :
    (here :: path).Nodup := by
  induction path generalizing here with
  | nil => exact List.nodup_singleton here
  | cons next rest ih =>
    refine List.nodup_cons.mpr ⟨?_, ih isPath.2 ?_⟩
    · intro repeated
      exact acyclic here Relation.ReflTransGen.refl (isPath.below here repeated)
    · intro id reaches
      exact acyclic id (Relation.ReflTransGen.head isPath.1 reaches)

/-- A tour leaves its bound at the end of a chain that is as long as the bound. -/
theorem path_of_endless {modes : NodeId → Interpolation} (bound depth : Nat) (inherited : Bool)
    (here last : NodeId)
    (endless : .endless last ∈ document.tourFrom modes bound depth inherited here) :
    ∃ path, IsPath document last here path ∧ path.length = bound ∧
      document.hasNode last = true := by
  induction bound generalizing depth inherited here with
  | zero =>
    cases found : document.node? here with
    | none => simp [tourFrom, found] at endless
    | some node =>
      cases node with
      | text content => simp [tourFrom, found] at endless
      | element element =>
        obtain rfl : last = here := by simpa [tourFrom, found] using endless
        exact ⟨[], rfl, rfl, hasNode_of_node? found⟩
  | succ bound ih =>
    cases found : document.node? here with
    | none => simp [tourFrom, found] at endless
    | some node =>
      cases node with
      | text content => simp [tourFrom, found] at endless
      | element element =>
        have below : ∃ child ∈ element.children, .endless last ∈
            document.tourFrom modes bound (depth + 1) ((modes here).resolve inherited) child := by
          simpa [tourFrom, found] using endless
        obtain ⟨child, isChild, deeper⟩ := below
        obtain ⟨path, isPath, length, isNode⟩ := ih _ _ child deeper
        rw [← children_of_element found] at isChild
        exact ⟨child :: path, ⟨isChild, isPath⟩, congrArg (· + 1) length, isNode⟩

theorem bounded_tour {roots : List NodeId} (acyclic : document.AcyclicBelow roots)
    (modes : NodeId → Interpolation) : ∀ stop ∈ document.tour modes roots, stop.IsBounded := by
  intro stop member
  cases stop with
  | endless last =>
    obtain ⟨root, isRoot, inside⟩ := List.mem_flatMap.mp member
    obtain ⟨path, isPath, length, isNode⟩ := path_of_endless _ _ _ root last inside
    have short := isPath.length_lt isNode (isPath.distinct (acyclic root isRoot))
    omega
  | _ => trivial

end TreeTemplate.Document
