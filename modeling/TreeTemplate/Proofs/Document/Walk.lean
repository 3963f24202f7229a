import Mathlib.Data.List.Basic
import Mathlib.Logic.Relation
import TreeTemplate.Template.Tour

/-!
# Walks

The nodes at and below some roots, said without a bound and without a mode: `Document.Reaches`
follows links from parent to child, and `Document.Preorder` lists the occurrences of identities, a
shared one once for each path to it; `Document.Visits` does so where all of them are nodes. A tour
within its bound passes exactly these occurrences.
-/
set_option autoImplicit false

namespace TreeTemplate

namespace Document

def Reaches (document : Document) : NodeId → NodeId → Prop :=
  Relation.ReflTransGen fun parent child => child ∈ document.children parent

/-- The occurrences of identities at and below the given ones, in pre-order. Nothing is below an
identity without a node. -/
inductive Preorder (document : Document) : List NodeId → List NodeId → Prop where
  | done : Preorder document [] []
  | visit {id : NodeId} {rest inner later : List NodeId}
      (below : Preorder document (document.children id) inner)
      (behind : Preorder document rest later) :
      Preorder document (id :: rest) (id :: (inner ++ later))

inductive Visits (document : Document) : List NodeId → List NodeId → Prop where
  | done : Visits document [] []
  | visit {id : NodeId} {rest inner later : List NodeId} (isNode : document.hasNode id = true)
      (below : Visits document (document.children id) inner) (behind : Visits document rest later) :
      Visits document (id :: rest) (id :: (inner ++ later))

theorem Visits.preorder {document : Document} {roots occurrences : List NodeId}
    (visits : document.Visits roots occurrences) : document.Preorder roots occurrences := by
  induction visits with
  | done => exact Preorder.done
  | visit isNode below behind ihBelow ihBehind => exact Preorder.visit ihBelow ihBehind

theorem Preorder.visits {document : Document} {roots occurrences : List NodeId}
    (preorder : document.Preorder roots occurrences)
    (nodes : ∀ id ∈ occurrences, document.hasNode id = true) :
    document.Visits roots occurrences := by
  induction preorder with
  | done => exact Visits.done
  | visit below behind ihBelow ihBehind =>
    rw [List.forall_mem_cons, List.forall_mem_append] at nodes
    exact Visits.visit nodes.1 (ihBelow nodes.2.1) (ihBehind nodes.2.2)

/-- The pre-order depends on the children only. -/
theorem Preorder.congr {document other : Document} {roots occurrences : List NodeId}
    (preorder : document.Preorder roots occurrences) (same : other.children = document.children) :
    other.Preorder roots occurrences := by
  induction preorder with
  | done => exact Preorder.done
  | visit below behind ihBelow ihBehind =>
    rw [← same] at ihBelow
    exact Preorder.visit ihBelow ihBehind

theorem Preorder.mem_roots {document : Document} {roots occurrences : List NodeId}
    (preorder : document.Preorder roots occurrences) (root : NodeId) (isRoot : root ∈ roots) :
    root ∈ occurrences := by
  induction preorder with
  | done => exact isRoot
  | visit below behind _ ihBehind =>
    rcases List.mem_cons.mp isRoot with same | later
    · exact List.mem_cons.mpr (Or.inl same)
    · exact List.mem_cons_of_mem _ (List.mem_append_right _ (ihBehind later))

theorem Preorder.mem_children {document : Document} {roots occurrences : List NodeId}
    (preorder : document.Preorder roots occurrences) (parent child : NodeId)
    (member : parent ∈ occurrences) (isChild : child ∈ document.children parent) :
    child ∈ occurrences := by
  induction preorder with
  | done => cases member
  | visit below behind ihBelow ihBehind =>
    rcases List.mem_cons.mp member with same | later
    · subst same
      exact List.mem_cons_of_mem _ (List.mem_append_left _ (below.mem_roots child isChild))
    · rcases List.mem_append.mp later with inside | after
      · exact List.mem_cons_of_mem _ (List.mem_append_left _ (ihBelow inside))
      · exact List.mem_cons_of_mem _ (List.mem_append_right _ (ihBehind after))

/-- The occurrences of the pre-order are the identities that links lead to. -/
theorem Preorder.mem_iff {document : Document} {roots occurrences : List NodeId}
    (preorder : document.Preorder roots occurrences) (id : NodeId) :
    id ∈ occurrences ↔ ∃ root ∈ roots, document.Reaches root id := by
  constructor
  · intro member
    induction preorder with
    | done => cases member
    | @visit first rest inner later below behind ihBelow ihBehind =>
      rcases List.mem_cons.mp member with same | deeper
      · exact ⟨first, List.mem_cons_self, same ▸ Relation.ReflTransGen.refl⟩
      · rcases List.mem_append.mp deeper with inside | after
        · obtain ⟨child, isChild, reaches⟩ := ihBelow inside
          exact ⟨first, List.mem_cons_self, Relation.ReflTransGen.head isChild reaches⟩
        · obtain ⟨root, isRoot, reaches⟩ := ihBehind after
          exact ⟨root, List.mem_cons_of_mem _ isRoot, reaches⟩
  · rintro ⟨root, isRoot, reaches⟩
    induction reaches with
    | refl => exact preorder.mem_roots root isRoot
    | tail _ isChild ih => exact preorder.mem_children _ _ ih isChild

theorem hasNode_of_node? {document : Document} {id : NodeId} {node : Node}
    (found : document.node? id = some node) : document.hasNode id = true := by
  obtain ⟨small, -⟩ := List.getElem?_eq_some_iff.mp found
  exact decide_eq_true small

theorem not_hasNode_of_node? {document : Document} {id : NodeId}
    (missing : document.node? id = none) : document.hasNode id = false :=
  decide_eq_false (Nat.not_lt.mpr (List.getElem?_eq_none_iff.mp missing))

theorem element?_eq_some_iff {document : Document} {id : NodeId} {element : Element} :
    document.element? id = some element ↔ document.node? id = some (.element element) := by
  cases found : document.node? id with
  | none => simp [Document.element?, found]
  | some node => cases node <;> simp [Document.element?, found, Node.element?]

theorem children_of_none {document : Document} {id : NodeId}
    (missing : document.node? id = none) : document.children id = [] := by
  simp [children, element?, missing]

theorem children_of_element {document : Document} {id : NodeId} {element : Element}
    (found : document.node? id = some (.element element)) :
    document.children id = element.children := by
  simp [children, element?, found, Node.element?]

theorem children_of_text {document : Document} {id : NodeId} {content : Text}
    (found : document.node? id = some (.text content)) : document.children id = [] := by
  simp [children, element?, found, Node.element?]

end Document

def Stop.entered : Stop → List NodeId
  | .enter _ id _ _ _ => [id]
  | _ => []

def Stop.opened : Stop → List (NodeId × Element)
  | .enter _ id element _ _ => [(id, element)]
  | _ => []

def Stop.missed : Stop → List NodeId
  | .missing id => [id]
  | _ => []

def Stop.IsBounded : Stop → Prop
  | .endless _ => False
  | _ => True

def Stop.IsSound : Stop → Prop
  | .missing _ => False
  | .endless _ => False
  | _ => True

theorem Stop.IsSound.isBounded {stop : Stop} (sound : stop.IsSound) : stop.IsBounded := by
  cases stop with
  | endless id => exact sound
  | _ => trivial

theorem Stop.IsSound.missed {stop : Stop} (sound : stop.IsSound) : stop.missed = [] := by
  cases stop with
  | missing id => exact absurd sound (fun impossible => impossible)
  | _ => rfl

section Tour
variable {document : Document} {modes : NodeId → Interpolation}

theorem tourFrom_text {id : NodeId} {content : Text}
    (found : document.node? id = some (.text content)) (bound depth : Nat) (inherited : Bool) :
    document.tourFrom modes bound depth inherited id = [.text depth inherited content] := by
  rw [Document.tourFrom, found]

theorem tourFrom_element {id : NodeId} {element : Element}
    (found : document.node? id = some (.element element)) (bound depth : Nat) (inherited : Bool) :
    document.tourFrom modes (bound + 1) depth inherited id =
      .enter depth id element inherited ((modes id).resolve inherited) ::
        (element.children.flatMap
            (document.tourFrom modes bound (depth + 1) ((modes id).resolve inherited)) ++
          [.leave depth element.tag element.children.isEmpty]) := by
  rw [Document.tourFrom, found]

/-- A tour within its bound starts at no node, at a text, or at an element with a bound to spare. -/
theorem node_of_bounded_tour {bound depth : Nat} {inherited : Bool} {id : NodeId}
    (bounded : ∀ stop ∈ document.tourFrom modes bound depth inherited id, stop.IsBounded) :
    document.node? id = none ∨ (∃ content, document.node? id = some (.text content)) ∨
      ∃ element rest, document.node? id = some (.element element) ∧ bound = rest + 1 := by
  cases found : document.node? id with
  | none => exact Or.inl rfl
  | some node =>
    cases node with
    | text content => exact Or.inr (Or.inl ⟨content, rfl⟩)
    | element element =>
      cases bound with
      | zero =>
        rw [Document.tourFrom, found] at bounded
        exact absurd (bounded (.endless id) (by simp)) (fun impossible => impossible)
      | succ bound => exact Or.inr (Or.inr ⟨element, bound, rfl, rfl⟩)

/-- A tour within its bound passes the occurrences of a walk. -/
theorem preorder_of_bounded_tour (bound depth : Nat) (inherited : Bool) (ids : List NodeId)
    (bounded : ∀ stop ∈ ids.flatMap (document.tourFrom modes bound depth inherited),
      stop.IsBounded) :
    ∃ occurrences, document.Preorder ids occurrences := by
  induction bound using Nat.strongRecOn generalizing depth inherited ids with
  | ind bound ihBound =>
    induction ids with
    | nil => exact ⟨[], Document.Preorder.done⟩
    | cons id rest ihRest =>
      rw [List.flatMap_cons, List.forall_mem_append] at bounded
      obtain ⟨later, behind⟩ := ihRest bounded.2
      have nothing (childless : document.children id = []) :
          document.Preorder (document.children id) [] := by
        rw [childless]
        exact Document.Preorder.done
      rcases node_of_bounded_tour bounded.1 with
        missing | ⟨content, found⟩ | ⟨element, smaller, found, rfl⟩
      · exact ⟨_, Document.Preorder.visit (nothing (Document.children_of_none missing)) behind⟩
      · exact ⟨_, Document.Preorder.visit (nothing (Document.children_of_text found)) behind⟩
      · have boundedBelow := bounded.1
        rw [tourFrom_element found, List.forall_mem_cons, List.forall_mem_append] at boundedBelow
        obtain ⟨inner, below⟩ := ihBound smaller (Nat.lt_succ_self _) _ _ _ boundedBelow.2.1
        rw [← Document.children_of_element found] at below
        exact ⟨_, Document.Preorder.visit below behind⟩

/-- What is read off the stops of a tour within its bound, in order, is what is read off the
occurrences of the walk, where the ends of elements have nothing to read. -/
theorem flatMap_bounded_tour {α : Type} {ids occurrences : List NodeId}
    (preorder : document.Preorder ids occurrences) (read : Stop → List α) (own : NodeId → List α)
    (readMissing : ∀ id, document.node? id = none → read (.missing id) = own id)
    (readText : ∀ id content depth interpolate, document.node? id = some (.text content) →
      read (.text depth interpolate content) = own id)
    (readEnter : ∀ id element depth inherited interpolate,
      document.node? id = some (.element element) →
      read (.enter depth id element inherited interpolate) = own id)
    (readLeave : ∀ depth tag childless, read (.leave depth tag childless) = [])
    (bound depth : Nat) (inherited : Bool)
    (bounded : ∀ stop ∈ ids.flatMap (document.tourFrom modes bound depth inherited),
      stop.IsBounded) :
    (ids.flatMap (document.tourFrom modes bound depth inherited)).flatMap read =
      occurrences.flatMap own := by
  induction preorder generalizing bound depth inherited with
  | done => rfl
  | @visit id rest inner later below behind ihBelow ihBehind =>
    rw [List.flatMap_cons, List.forall_mem_append] at bounded
    have tail := ihBehind bound depth inherited bounded.2
    rw [List.flatMap_cons, List.flatMap_append, tail, List.flatMap_cons, List.flatMap_append]
    rcases node_of_bounded_tour bounded.1 with
      missing | ⟨content, found⟩ | ⟨element, smaller, found, rfl⟩
    · rw [Document.children_of_none missing] at below
      cases below
      rw [Document.tourFrom, missing]
      simp [readMissing id missing]
    · rw [Document.children_of_text found] at below
      cases below
      rw [tourFrom_text found, List.flatMap_singleton, readText id content depth inherited found]
      simp
    · have boundedBelow := bounded.1
      rw [tourFrom_element found, List.forall_mem_cons, List.forall_mem_append] at boundedBelow
      rw [Document.children_of_element found] at ihBelow
      have inside := ihBelow smaller (depth + 1) ((modes id).resolve inherited) boundedBelow.2.1
      rw [tourFrom_element found, List.flatMap_cons, readEnter id element _ _ _ found,
        List.flatMap_append, inside, List.flatMap_singleton, readLeave, List.append_nil,
        List.append_assoc]

/-- A sound tour passes the occurrences of a walk. -/
theorem visits_of_sound_tour (bound depth : Nat) (inherited : Bool) (ids : List NodeId)
    (sound : ∀ stop ∈ ids.flatMap (document.tourFrom modes bound depth inherited), stop.IsSound) :
    ∃ occurrences, document.Visits ids occurrences := by
  have bounded : ∀ stop ∈ ids.flatMap (document.tourFrom modes bound depth inherited),
      stop.IsBounded := fun stop member => (sound stop member).isBounded
  obtain ⟨occurrences, preorder⟩ := preorder_of_bounded_tour bound depth inherited ids bounded
  refine ⟨occurrences, preorder.visits ?_⟩
  -- What the walk lacks is what the tour misses, which is nothing.
  have lacking := flatMap_bounded_tour preorder Stop.missed
    (fun id => if document.hasNode id then [] else [id]) (fun id missing => by
      have outside := Document.not_hasNode_of_node? missing
      simp [Stop.missed, outside])
    (fun id content depth interpolate found => by
      simp [Stop.missed, Document.hasNode_of_node? found])
    (fun id element depth inherited interpolate found => by
      simp [Stop.missed, Document.hasNode_of_node? found])
    (fun _ _ _ => rfl) bound depth inherited bounded
  have none : (ids.flatMap (document.tourFrom modes bound depth inherited)).flatMap Stop.missed =
      [] := List.flatMap_eq_nil_iff.mpr fun stop member => (sound stop member).missed
  intro id member
  have nothing := List.flatMap_eq_nil_iff.mp (lacking.symm.trans none) id member
  by_contra outside
  simp [outside] at nothing

/-- The elements that a sound tour enters, in order, are those among the occurrences of the walk. -/
theorem entered_of_sound_tour {ids occurrences : List NodeId}
    (visits : document.Visits ids occurrences) (bound depth : Nat) (inherited : Bool)
    (sound : ∀ stop ∈ ids.flatMap (document.tourFrom modes bound depth inherited), stop.IsSound) :
    (ids.flatMap (document.tourFrom modes bound depth inherited)).flatMap Stop.entered =
      occurrences.filter fun id => (document.element? id).isSome := by
  rw [← List.filterMap_eq_filter, List.filterMap_eq_flatMap_toList]
  have bounded := fun stop member => (sound stop member).isBounded
  refine flatMap_bounded_tour visits.preorder Stop.entered _ ?_ ?_ ?_ ?_ bound depth inherited
    bounded
  · intro id missing
    simp [Stop.entered, Document.element?, missing]
  · intro id content depth interpolate found
    simp [Stop.entered, Document.element?, found, Node.element?, Option.guard]
  · intro id element depth inherited interpolate found
    simp [Stop.entered, Document.element?, found, Node.element?, Option.guard]
  · intro depth tag childless
    rfl

theorem enters_of_bounded_tour {ids occurrences : List NodeId}
    (preorder : document.Preorder ids occurrences) (bound depth : Nat) (inherited : Bool)
    (bounded : ∀ stop ∈ ids.flatMap (document.tourFrom modes bound depth inherited),
      stop.IsBounded) {id : NodeId} {element : Element} (member : id ∈ occurrences)
    (found : document.node? id = some (.element element)) :
    ∃ level above interpolate, .enter level id element above interpolate ∈
      ids.flatMap (document.tourFrom modes bound depth inherited) := by
  have opened : (ids.flatMap (document.tourFrom modes bound depth inherited)).flatMap Stop.opened =
      occurrences.flatMap fun id => ((document.element? id).map (Prod.mk id)).toList := by
    refine flatMap_bounded_tour preorder Stop.opened _ ?_ ?_ ?_ ?_ bound depth inherited bounded
    · intro id missing
      simp [Stop.opened, Document.element?, missing]
    · intro id content depth interpolate isText
      simp [Stop.opened, Document.element?, isText, Node.element?]
    · intro id element depth inherited interpolate isElement
      simp [Stop.opened, Document.element?, isElement, Node.element?]
    · intro depth tag childless
      rfl
  have isOpened : (id, element) ∈
      (ids.flatMap (document.tourFrom modes bound depth inherited)).flatMap Stop.opened := by
    rw [opened, List.mem_flatMap]
    exact ⟨id, member, by simp [Document.element?, found, Node.element?]⟩
  obtain ⟨stop, isStop, isOpened⟩ := List.mem_flatMap.mp isOpened
  cases stop with
  | enter level other own above interpolate =>
    obtain ⟨rfl, rfl⟩ := Prod.mk.inj (List.mem_singleton.mp isOpened)
    exact ⟨level, above, interpolate, isStop⟩
  | _ => cases isOpened

end Tour

end TreeTemplate
