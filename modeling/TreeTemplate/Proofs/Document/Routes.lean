import Mathlib.Data.List.Nodup
import TreeTemplate.Proofs.Document.Walk

/-!
# Routes

A route leads down to a node: the place of a root among the roots, then the place of each further
node among the children of the one before it. Routes tell apart two links between the same two
nodes. A node has as many routes as it has occurrences in the pre-order, so that it has exactly one
where the pre-order repeats nothing.
-/
set_option autoImplicit false

namespace TreeTemplate.Document

/-- Taking the places of the route one after the other, the first among the given identities and
each further one among the children, leads to the identity. -/
inductive Leads (document : Document) : List NodeId → List Nat → NodeId → Prop where
  | here {ids : List NodeId} {place : Nat} {id : NodeId} (found : ids[place]? = some id) :
      Leads document ids [place] id
  | inside {ids : List NodeId} {place : Nat} {route : List Nat} {parent id : NodeId}
      (found : ids[place]? = some parent)
      (behind : Leads document (document.children parent) route id) :
      Leads document ids (place :: route) id

variable {document : Document}

theorem Leads.ne_nil {ids : List NodeId} {route : List Nat} {id : NodeId}
    (leads : document.Leads ids route id) : ids ≠ [] := by
  rintro rfl
  cases leads with
  | here found => cases found
  | inside found behind => cases found

/-- A route ends at the first identity, goes on below it, or starts at a later one. -/
theorem leads_cons_iff (first : NodeId) (rest : List NodeId) (route : List Nat) (id : NodeId) :
    document.Leads (first :: rest) route id ↔
      (route = [0] ∧ id = first) ∨
        (∃ inner, route = 0 :: inner ∧ document.Leads (document.children first) inner id) ∨
          ∃ place inner, route = (place + 1) :: inner ∧
            document.Leads rest (place :: inner) id := by
  constructor
  · intro leads
    cases leads with
    | @here _ place _ found =>
      cases place with
      | zero => exact Or.inl ⟨rfl, (Option.some.inj found).symm⟩
      | succ place => exact Or.inr (Or.inr ⟨place, [], rfl, .here found⟩)
    | @inside _ place inner parent _ found behind =>
      cases place with
      | zero =>
        obtain rfl := Option.some.inj found
        exact Or.inr (Or.inl ⟨inner, rfl, behind⟩)
      | succ place => exact Or.inr (Or.inr ⟨place, inner, rfl, .inside found behind⟩)
  · rintro (⟨rfl, rfl⟩ | ⟨inner, rfl, inside⟩ | ⟨place, inner, rfl, later⟩)
    · exact .here rfl
    · exact .inside rfl inside
    · cases later with
      | here found => exact .here found
      | inside found behind => exact .inside found behind

variable {roots occurrences : List NodeId}

theorem Preorder.mem_of_leads (preorder : document.Preorder roots occurrences) {route : List Nat}
    {id : NodeId} (leads : document.Leads roots route id) : id ∈ occurrences := by
  induction preorder generalizing route with
  | done => exact absurd rfl leads.ne_nil
  | @visit first rest inner later below behind ihBelow ihBehind =>
    rcases (leads_cons_iff first rest route id).mp leads with
      ⟨-, rfl⟩ | ⟨_, -, inside⟩ | ⟨_, _, -, after⟩
    · exact List.mem_cons_self
    · exact List.mem_cons_of_mem _ (List.mem_append_left _ (ihBelow inside))
    · exact List.mem_cons_of_mem _ (List.mem_append_right _ (ihBehind after))

theorem Preorder.exists_route (preorder : document.Preorder roots occurrences) {id : NodeId}
    (member : id ∈ occurrences) : ∃ route, document.Leads roots route id := by
  induction preorder with
  | done => cases member
  | @visit first rest inner later below behind ihBelow ihBehind =>
    rcases List.mem_cons.mp member with rfl | deeper
    · exact ⟨[0], .here rfl⟩
    · rcases List.mem_append.mp deeper with inside | after
      · obtain ⟨route, leads⟩ := ihBelow inside
        exact ⟨0 :: route, .inside rfl leads⟩
      · obtain ⟨route, leads⟩ := ihBehind after
        cases leads with
        | @here _ place _ found => exact ⟨[place + 1], .here found⟩
        | @inside _ place _ _ _ found behind => exact ⟨(place + 1) :: _, .inside found behind⟩

/-- Two routes to one node part where the pre-order has the node twice: at the first identity, below
it, or behind it. -/
theorem Preorder.route_unique (preorder : document.Preorder roots occurrences)
    (distinct : occurrences.Nodup) {left right : List Nat} {id : NodeId}
    (first : document.Leads roots left id) (second : document.Leads roots right id) :
    left = right := by
  induction preorder generalizing left right with
  | done => exact absurd rfl first.ne_nil
  | @visit own rest inner later below behind ihBelow ihBehind =>
    obtain ⟨once, parts⟩ := List.nodup_cons.mp distinct
    obtain ⟨distinctInner, distinctLater, apart⟩ := List.nodup_append.mp parts
    have notBelow {route : List Nat}
        (inside : document.Leads (document.children own) route own) : False :=
      once (List.mem_append_left _ (below.mem_of_leads inside))
    have notBehind {route : List Nat} (after : document.Leads rest route own) : False :=
      once (List.mem_append_right _ (behind.mem_of_leads after))
    have notBoth {route other : List Nat}
        (inside : document.Leads (document.children own) route id)
        (after : document.Leads rest other id) : False :=
      apart id (below.mem_of_leads inside) id (behind.mem_of_leads after) rfl
    rcases (leads_cons_iff own rest left id).mp first with
      ⟨rfl, rfl⟩ | ⟨_, rfl, insideFirst⟩ | ⟨_, _, rfl, afterFirst⟩
    · rcases (leads_cons_iff id rest right id).mp second with
        ⟨rfl, -⟩ | ⟨_, rfl, insideSecond⟩ | ⟨_, _, rfl, afterSecond⟩
      · rfl
      · exact (notBelow insideSecond).elim
      · exact (notBehind afterSecond).elim
    · rcases (leads_cons_iff own rest right id).mp second with
        ⟨rfl, rfl⟩ | ⟨_, rfl, insideSecond⟩ | ⟨_, _, rfl, afterSecond⟩
      · exact (notBelow insideFirst).elim
      · rw [ihBelow distinctInner insideFirst insideSecond]
      · exact (notBoth insideFirst afterSecond).elim
    · rcases (leads_cons_iff own rest right id).mp second with
        ⟨rfl, rfl⟩ | ⟨_, rfl, insideSecond⟩ | ⟨_, _, rfl, afterSecond⟩
      · exact (notBehind afterFirst).elim
      · exact (notBoth insideSecond afterFirst).elim
      · obtain ⟨rfl, rfl⟩ := List.cons.inj (ihBehind distinctLater afterFirst afterSecond)
        rfl

/-- Where the pre-order repeats no identity, exactly one route leads to each of them. -/
theorem Preorder.existsUnique_route (preorder : document.Preorder roots occurrences)
    (distinct : occurrences.Nodup) {id : NodeId} (member : id ∈ occurrences) :
    ∃! route, document.Leads roots route id := by
  obtain ⟨route, leads⟩ := preorder.exists_route member
  exact ⟨route, leads, fun _ other => preorder.route_unique distinct other leads⟩

theorem Preorder.functional {others : List NodeId} (left : document.Preorder roots occurrences)
    (right : document.Preorder roots others) : occurrences = others := by
  induction left generalizing others with
  | done => cases right; rfl
  | visit _ _ ihBelow ihBehind =>
    cases right with
    | visit below behind => rw [ihBelow below, ihBehind behind]

/-- There is one pre-order only. -/
theorem Visits.iff_eq (visits : document.Visits roots occurrences) (others : List NodeId) :
    document.Visits roots others ↔ others = occurrences := by
  constructor
  · intro second
    exact second.preorder.functional visits.preorder
  · rintro rfl
    exact visits

end TreeTemplate.Document
