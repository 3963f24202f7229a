import TreeTemplate.Proofs.Template.Composition
import TreeTemplate.Proofs.Template.Visiting

/-!
# Occurrences

A walk passes a shared node once for each way that leads to it, so that an occurrence of a node is the
node together with the elements around it. The stops of a tour, but for the ends of elements, are what
a document has to say about the occurrences of the walk, in the modes of their trails.
-/
set_option autoImplicit false

namespace TreeTemplate

/-- An identity at one place of a walk, with the elements around it, from the inside out. -/
structure Occurrence where
  id : NodeId
  outer : List NodeId
  deriving DecidableEq

def Occurrence.trail (occurrence : Occurrence) : List NodeId :=
  occurrence.id :: occurrence.outer

namespace Document

inductive Walks (document : Document) : List NodeId → List NodeId → List Occurrence → Prop where
  | done {outer : List NodeId} : Walks document outer [] []
  | visit {outer rest : List NodeId} {id : NodeId} {inner later : List Occurrence}
      (below : Walks document (id :: outer) (document.children id) inner)
      (behind : Walks document outer rest later) :
      Walks document outer (id :: rest) (⟨id, outer⟩ :: (inner ++ later))

def stopAt (document : Document) (modes : NodeId → Interpolation) (occurrence : Occurrence) : Stop :=
  match document.node? occurrence.id with
  | none => .missing occurrence.id
  | some (.text content) =>
    .text occurrence.outer.length (nearestMode modes occurrence.outer) content
  | some (.element element) =>
    .enter occurrence.outer.length occurrence.id element (nearestMode modes occurrence.outer)
      (nearestMode modes occurrence.trail)

variable {document : Document}

theorem Walks.preorder {outer ids : List NodeId} {occurrences : List Occurrence}
    (walks : document.Walks outer ids occurrences) :
    document.Preorder ids (occurrences.map Occurrence.id) := by
  induction walks with
  | done => exact .done
  | visit below behind ihBelow ihBehind =>
    rw [List.map_cons, List.map_append]
    exact .visit ihBelow ihBehind

theorem exists_walks {ids identities : List NodeId} (preorder : document.Preorder ids identities)
    (outer : List NodeId) : ∃ occurrences, document.Walks outer ids occurrences := by
  induction preorder generalizing outer with
  | done => exact ⟨[], .done⟩
  | visit below behind ihBelow ihBehind =>
    obtain ⟨inner, walksInner⟩ := ihBelow _
    obtain ⟨later, walksLater⟩ := ihBehind outer
    exact ⟨_, .visit walksInner walksLater⟩

end Document

def Stop.isLeave : Stop → Bool
  | .leave _ _ _ => true
  | _ => false

section Tour
variable {document : Document} {modes : NodeId → Interpolation}

/-- A tour within its bound consists of the stops at the occurrences and of the ends of elements. -/
theorem filter_bounded_tour {outer ids : List NodeId} {occurrences : List Occurrence}
    (walks : document.Walks outer ids occurrences) (bound : Nat)
    (bounded : ∀ stop ∈ ids.flatMap
      (document.tourFrom modes bound outer.length (nearestMode modes outer)), stop.IsBounded) :
    (ids.flatMap (document.tourFrom modes bound outer.length (nearestMode modes outer))).filter
        (fun stop => !stop.isLeave) = occurrences.map (document.stopAt modes) := by
  induction walks generalizing bound with
  | done => rfl
  | @visit outer rest id inner later below behind ihBelow ihBehind =>
    rw [List.flatMap_cons, List.forall_mem_append] at bounded
    rw [List.flatMap_cons, List.filter_append, ihBehind bound bounded.2, List.map_cons,
      List.map_append]
    rcases node_of_bounded_tour bounded.1 with
      missing | ⟨content, found⟩ | ⟨element, smaller, found, rfl⟩
    · rw [Document.children_of_none missing] at below
      cases below
      rw [Document.tourFrom, missing]
      simp [Document.stopAt, missing, Stop.isLeave]
    · rw [Document.children_of_text found] at below
      cases below
      rw [tourFrom_text found]
      simp [Document.stopAt, found, Stop.isLeave]
    · have boundedBelow := bounded.1
      rw [tourFrom_element found, List.forall_mem_cons, List.forall_mem_append,
        ← nearestMode_cons] at boundedBelow
      rw [Document.children_of_element found] at ihBelow
      have inside := ihBelow smaller boundedBelow.2.1
      rw [List.length_cons] at inside
      have entered : document.stopAt modes ⟨id, outer⟩ = .enter outer.length id element
          (nearestMode modes outer) (nearestMode modes (id :: outer)) := by
        simp [Document.stopAt, found, Occurrence.trail]
      rw [tourFrom_element found, ← nearestMode_cons, List.filter_cons_of_pos rfl,
        List.filter_append, inside, List.filter_cons_of_neg (by simp [Stop.isLeave]), entered,
        List.filter_nil, List.append_nil, List.cons_append]

theorem visits_stopAt {ι ω : Type} (metadata : Metadata ι ω) (occurrence : Occurrence) :
    (document.stopAt modes occurrence).visits metadata =
      document.visitsAt metadata occurrence.id := by
  rw [Document.stopAt, Document.visitsAt]
  cases document.node? occurrence.id with
  | none => rfl
  | some node => cases node <;> rfl

end Tour
end TreeTemplate
