import Mathlib.Data.List.Chain
import TreeTemplate.Proofs.Document.Materializing
import TreeTemplate.Proofs.Markup.Interpretation
import TreeTemplate.Proofs.Markup.Rendering
import TreeTemplate.Proofs.Template.Exclusion

/-!
# Parsed forests

The nodes of parsed markup form a forest that is numbered in the order of the source: exactly one
route leads to each node, links lead to later nodes, and the pre-order counts from zero on. Texts are
trimmed and stand apart, since a run up to the next tag becomes one text or none. The directives
follow the elements in whose tags they stand.
-/
set_option autoImplicit false

namespace TreeTemplate

open Text

def Document.KeepsApart (document : Document) (ids : List NodeId) : Prop :=
  ids.IsChain fun left right => ¬(document.isText left = true ∧ document.isText right = true)

namespace Markup

/-- The texts of the forest are trimmed, and each is its last tree or stands before an element. -/
inductive Tidy : List Declared → Prop where
  | done : Tidy []
  | last {content : Text} (trimmed : IsTrimmed content) : Tidy [.text content]
  | text {content tag : Text} {declarations : List Declaration} {children forest : List Declared}
      (trimmed : IsTrimmed content) (later : Tidy (.element tag declarations children :: forest)) :
      Tidy (.text content :: .element tag declarations children :: forest)
  | element {tag : Text} {declarations : List Declaration} {children forest : List Declared}
      (inside : Tidy children) (later : Tidy forest) :
      Tidy (.element tag declarations children :: forest)

theorem Pending.tidy {run tag : Text} {declarations : List Declaration}
    {first children forest : List Declared} (pending : Pending run first)
    (later : Tidy (.element tag declarations children :: forest)) :
    Tidy (first ++ .element tag declarations children :: forest) := by
  cases pending with
  | blank blanks => exact later
  | text blanksBefore encoded noBracket trimmed blanksBehind => exact .text trimmed later

theorem LaysOut.tidy {source : Text} {forest : List Declared} (laysOut : LaysOut source forest) :
    Tidy forest := by
  induction laysOut with
  | last pending =>
    cases pending with
    | blank blanks => exact .done
    | text blanksBefore encoded noBracket trimmed blanksBehind => exact .last trimmed
  | void pending isName declares spaces later ih => exact pending.tidy (.element .done ih)
  | paired pending isName declares spaces inside spacesEnding later ihInside ihLater =>
    exact pending.tidy (.element ihInside ihLater)

section Carried
variable {document : Document} {first next : Nat} {ids : List NodeId} {forest : List Declared}
  {directives : List (NodeId × Directive)}

theorem isText_of_element {id : NodeId} {element : Element}
    (found : document.node? id = some (.element element)) : document.isText id = false := by
  simp [Document.isText, Document.text?, found, Node.text?]

theorem Carried.keepsApart (carried : Carried document.node? first ids forest directives next)
    (tidy : Tidy forest) : document.KeepsApart ids := by
  induction carried with
  | done => exact .nil
  | text found later ih =>
    cases tidy with
    | last trimmed =>
      cases later
      exact .singleton _
    | text trimmed tidyLater =>
      have behind := ih tidyLater
      cases later with
      | element foundNext attributes properties inside last =>
        refine List.isChain_cons_cons.mpr ⟨?_, behind⟩
        rintro ⟨-, isText⟩
        cases (isText_of_element foundNext).symm.trans isText
  | element found attributes properties inside later ihInside ihLater =>
    cases tidy with
    | element tidyInside tidyLater =>
      refine List.isChain_cons.mpr ⟨?_, ihLater tidyLater⟩
      rintro other - ⟨isText, -⟩
      cases (isText_of_element found).symm.trans isText

/-- A node of a tidy forest is a trimmed text, or an element above a tidy forest. -/
theorem Carried.node_cases (carried : Carried document.node? first ids forest directives next)
    (tidy : Tidy forest) (id : Nat) (atLeast : first ≤ id) (before : id < next) :
    (∃ content, document.node? id = some (.text content) ∧ IsTrimmed content) ∨
      ∃ element, document.node? id = some (.element element) ∧
        document.KeepsApart element.children := by
  induction carried with
  | done => omega
  | text found later ih =>
    rcases Nat.eq_or_lt_of_le atLeast with rfl | behind
    · cases tidy with
      | last trimmed => exact Or.inl ⟨_, found, trimmed⟩
      | text trimmed tidyLater => exact Or.inl ⟨_, found, trimmed⟩
    · cases tidy with
      | last trimmed => exact ih .done behind before
      | text trimmed tidyLater => exact ih tidyLater behind before
  | @element _ middle _ element _ _ _ _ _ _ found attributes properties inside later ihInside
      ihLater =>
    cases tidy with
    | element tidyInside tidyLater =>
      rcases Nat.eq_or_lt_of_le atLeast with rfl | behind
      · exact Or.inr ⟨element, found, inside.keepsApart tidyInside⟩
      · rcases Nat.lt_or_ge id middle with isInside | isBehind
        · exact ihInside tidyInside behind isInside
        · exact ihLater tidyLater isBehind before

/-- The directives of an element come before those of the elements in it, and these before those of
the elements behind it. -/
theorem Carried.sorted {node? : NodeId → Option Node}
    (carried : Carried node? first ids forest directives next) :
    (directives.map Prod.fst).Pairwise (· ≤ ·) := by
  rw [List.pairwise_map]
  induction carried with
  | done => exact .nil
  | text found later ih => exact ih
  | @element first middle next element declarations ids children forest inner outer found attributes
      properties inside later ihInside ihLater =>
    obtain ⟨_, spansInside⟩ := inside.spans
    have behindInside := spansInside.le
    rw [List.pairwise_append, List.pairwise_append]
    refine ⟨?_, ⟨ihInside, ihLater, ?_⟩, ?_⟩
    · refine List.pairwise_map.mpr (List.pairwise_of_forall ?_)
      intro _ _
      exact Nat.le_refl first
    · rintro ⟨left, own⟩ isLeft ⟨right, other⟩ isRight
      obtain ⟨-, before, -⟩ := inside.of_mem isLeft
      obtain ⟨behind, -, -⟩ := later.of_mem isRight
      exact Nat.le_of_lt (Nat.lt_of_lt_of_le before behind)
    · rintro ⟨left, own⟩ isLeft ⟨right, other⟩ isRight
      obtain ⟨directive, -, same⟩ := List.mem_map.mp isLeft
      obtain ⟨rfl, -⟩ := Prod.mk.inj same
      rcases List.mem_append.mp isRight with isInside | isBehind
      · obtain ⟨behind, -, -⟩ := inside.of_mem isInside
        exact Nat.le_of_lt behind
      · obtain ⟨behind, -, -⟩ := later.of_mem isBehind
        exact Nat.le_of_lt (Nat.lt_of_lt_of_le behindInside behind)

end Carried

/-- The nodes are those of a forest: one route leads to each of them, and the pre-order is the order
of their identities, from zero on. Each link leads to a later node. Texts are trimmed and stand apart
everywhere. An element has no name twice. The directives belong to elements, in their order. -/
structure IsForest (markup : Markup) : Prop where
  routes : ∀ id : Nat, id < markup.document.size →
    ∃! route, markup.document.Leads markup.roots route id
  order : ∀ occurrences, markup.document.Visits markup.roots occurrences ↔
    occurrences = List.range markup.document.size
  links : ∀ parent : Nat, ∀ child ∈ markup.document.children parent,
    parent < child ∧ child < markup.document.size
  trimmed : ∀ id content, markup.document.text? id = some content → IsTrimmed content
  apart : markup.document.KeepsApart markup.roots
  apartInside : ∀ id, markup.document.KeepsApart (markup.document.children id)
  attributes : ∀ id, Entries.Distinct (markup.document.attributes id)
  properties : ∀ id, Entries.Distinct (markup.document.properties id)
  owners : ∀ pair ∈ markup.directives, (markup.document.element? pair.1).isSome = true
  sorted : (markup.directives.map Prod.fst).Pairwise (· ≤ ·)

theorem Carries.isForest {markup : Markup} {forest : List Declared} (carries : markup.Carries forest)
    (tidy : Tidy forest) : markup.IsForest := by
  have visits := carries.visits
  have nodes (id : Nat) (isNode : id < markup.document.size) :=
    Carried.node_cases carries tidy id (Nat.zero_le id) isNode
  obtain ⟨blueprints, spans⟩ := Carried.spans carries
  refine ⟨?_, visits.iff_eq, ?_, ?_, Carried.keepsApart carries tidy, ?_,
    distinct_attributes markup.document, distinct_properties markup.document, ?_,
    Carried.sorted carries⟩
  · intro id isNode
    exact visits.preorder.existsUnique_route List.nodup_range (List.mem_range.mpr isNode)
  · intro parent child isChild
    have isNode : parent < markup.document.size :=
      of_decide_eq_true (Document.hasNode_of_mem_children isChild)
    exact spans.links parent child (Nat.zero_le parent) isNode isChild
  · intro id content isText
    obtain ⟨node, found, same⟩ := Option.bind_eq_some_iff.mp isText
    have isNode : id < markup.document.size :=
      of_decide_eq_true (Document.hasNode_of_node? found)
    rcases nodes id isNode with ⟨own, foundText, trimmed⟩ | ⟨element, foundElement, -⟩
    · obtain rfl := Option.some.inj (found.symm.trans foundText)
      obtain rfl := Option.some.inj same
      exact trimmed
    · obtain rfl := Option.some.inj (found.symm.trans foundElement)
      cases same
  · intro id
    rcases Nat.lt_or_ge id markup.document.size with isNode | isNone
    · rcases nodes id isNode with ⟨content, found, -⟩ | ⟨element, found, apart⟩
      · rw [Document.children_of_text found]
        exact .nil
      · rw [Document.children_of_element found]
        exact apart
    · rw [Document.children_of_none (List.getElem?_eq_none isNone)]
      exact .nil
  · intro pair member
    exact (carries.reached pair member).2

/-- Whatever is parsed is the forest that its source lays out, numbered in the order of the source. -/
theorem parsed_is_forest {source : Text} {markup : Markup} (parsed : Markup.parse source = .ok markup) :
    (∃ forest, LaysOut source forest ∧ markup.Carries forest) ∧ markup.IsForest := by
  obtain ⟨forest, laysOut, -, rfl⟩ := (parse_eq_ok_iff source markup).mp parsed
  have carries := carries_ofDeclared forest
  exact ⟨⟨forest, laysOut, carries⟩, carries.isForest laysOut.tidy⟩

def forestSource : Text :=
  " a &lt;<p @k>\n<i :x=\x27f\x27 @m/> b </p>\n <br @k/>c ".toList

theorem forest_source_is_forest :
    ∃ markup, Markup.parse forestSource = .ok markup ∧ markup.document.size = 6 ∧
      markup.roots = [0, 1, 4, 5] ∧ markup.directives.map Prod.fst = [1, 2, 2, 4] ∧
        ((∃ forest, LaysOut forestSource forest ∧ markup.Carries forest) ∧ markup.IsForest) := by
  have computed : (Markup.parse forestSource).toOption.any (fun markup =>
      decide (markup.document.size = 6 ∧ markup.roots = [0, 1, 4, 5] ∧
        markup.directives.map Prod.fst = [1, 2, 2, 4])) = true := by
    decide +kernel
  obtain ⟨markup, parsed, holds⟩ := exists_ok_of_any computed
  obtain ⟨size, roots, owners⟩ := of_decide_eq_true holds
  exact ⟨markup, parsed, size, roots, owners, parsed_is_forest parsed⟩

end Markup

end TreeTemplate
