import TreeTemplate.Proofs.Markup.Rendering
import TreeTemplate.Proofs.Template.Skeleton

/-!
# The outline of a template

The template of parsed markup follows its forest. In the start tag of an element stand the bindings
that its own items declare, in the order of their names, each with the field that the last item for
the name gives; what else stands there takes no property name.
-/
set_option autoImplicit false

namespace TreeTemplate

namespace Markup

variable {ω : Type}

/-- The fields that the items of a tag give to names, the last one for each name. -/
def GivesFields (select : Directive → Option (Text × Text)) (declarations : List Declaration)
    (fields : SortedMap Text Text) : Prop :=
  ∀ name field, fields.find? name = some field ↔
    Entries.IsLast ((declarations.filterMap Declaration.directive?).filterMap select) name field

theorem givesFields_fieldsOf (select : Directive → Option (Text × Text))
    (declarations : List Declaration) :
    GivesFields select declarations
      (fieldsOf select (declarations.filterMap Declaration.directive?)) :=
  fun name field => SortedMap.find?_ofList_iff _ name field

def fieldSegments (mark : Text) (fields : SortedMap Text Text) : List (Segment Json ω) :=
  fields.entries.map fun pair => .binding ⟨mark, pair.1, fieldProvider pair.2⟩

theorem bindingSegments_map (mark : Text) (fields : SortedMap Text Text) :
    bindingSegments mark (fields.map fieldProvider).entries =
      (fieldSegments mark fields : List (Segment Json ω)) := by
  rw [bindingSegments, SortedMap.map, List.map_map]
  rfl

def endTagText (depth : Nat) (tag : Text) (childless : Bool) : Text :=
  if childless then '<' :: '/' :: tag ++ ['>'] else padding depth ++ ('<' :: '/' :: tag ++ ['>'])

inductive Outlines : Nat → List Declared → List (Segment Json ω) → Prop where
  | done {depth : Nat} : Outlines depth [] []
  | text {depth : Nat} {content : Text} {forest : List Declared}
      {own later : List (Segment Json ω)} (still : ∀ segment ∈ own, segment.IsStill)
      (behind : Outlines depth forest later) :
      Outlines depth (.text content :: forest) (own ++ later)
  | element {depth : Nat} {tag : Text} {declarations : List Declaration}
      {children forest : List Declared} {attributes properties : SortedMap Text Text}
      {literals constants inner later : List (Segment Json ω)}
      {listeners : Entries Text (Listener Json ω)}
      (givesAttributes : GivesFields Directive.attributeField? declarations attributes)
      (givesProperties : GivesFields Directive.propertyField? declarations properties)
      (stillLiterals : ∀ segment ∈ literals, segment.IsStill)
      (stillConstants : ∀ segment ∈ constants, segment.IsStill)
      (inside : Outlines (depth + 1) children inner) (behind : Outlines depth forest later) :
      Outlines depth (.element tag declarations children :: forest)
        ([.fixed (padding depth ++ '<' :: tag)] ++ fieldSegments [] attributes ++ literals ++
          fieldSegments ['.'] properties ++ constants ++ listenerSegments listeners ++
          [.fixed ['>']] ++ (inner ++ (.fixed (endTagText depth tag children.isEmpty) :: later)))

theorem directivesAt_eq_nil {id : NodeId} {directives : List (NodeId × Directive)}
    (apart : ∀ pair ∈ directives, pair.1 ≠ id) : directivesAt id directives = [] := by
  rw [directivesAt, List.filterMap_eq_nil_iff]
  intro pair member
  exact if_neg (apart pair member)

theorem directivesAt_own (id : NodeId) (own : List Directive) :
    directivesAt id (own.map fun directive => (id, directive)) = own := by
  rw [directivesAt, List.filterMap_map]
  simp

theorem Carried.directivesAt_outside {node? : NodeId → Option Node} {first next : Nat}
    {ids : List NodeId} {forest : List Declared} {directives : List (NodeId × Directive)}
    (carried : Carried node? first ids forest directives next) {id : Nat}
    (outside : id < first ∨ next ≤ id) : directivesAt id directives = [] := by
  refine directivesAt_eq_nil ?_
  rintro ⟨other, directive⟩ member rfl
  obtain ⟨atLeast, before, -⟩ := carried.of_mem member
  rcases outside with isEarlier | isLater
  · exact Nat.not_lt_of_le atLeast isEarlier
  · exact Nat.not_lt_of_le isLater before

/-- The directives of an element, of the elements inside it and of those behind it are told apart by
their identities. -/
theorem directivesAt_parts {node? : NodeId → Option Node} {first middle next : Nat}
    {within ids : List NodeId} {children forest : List Declared}
    {inner outer : List (NodeId × Directive)}
    (inside : Carried node? (first + 1) within children inner middle)
    (later : Carried node? middle ids forest outer next) (own : List Directive) :
    let whole := own.map (fun directive => (first, directive)) ++ (inner ++ outer)
    directivesAt first whole = own ∧
      (∀ id : Nat, first + 1 ≤ id → id < middle → directivesAt id whole = directivesAt id inner) ∧
        ∀ id : Nat, middle ≤ id → id < next → directivesAt id whole = directivesAt id outer := by
  intro whole
  obtain ⟨_, spans⟩ := inside.spans
  have order := spans.le
  have split (id : Nat) : directivesAt id whole =
      directivesAt id (own.map fun directive => (first, directive)) ++
        (directivesAt id inner ++ directivesAt id outer) := by
    rw [directivesAt_append, directivesAt_append]
  have elsewhere (id : Nat) (apart : first ≠ id) :
      directivesAt id (own.map fun directive => (first, directive)) = [] := by
    refine directivesAt_eq_nil ?_
    intro pair member
    obtain ⟨directive, -, rfl⟩ := List.mem_map.mp member
    exact apart
  refine ⟨?_, ?_, ?_⟩
  · rw [split, directivesAt_own, inside.directivesAt_outside (Or.inl (Nat.lt_succ_self first)),
      later.directivesAt_outside (Or.inl order)]
    simp
  · intro id atLeast before
    rw [split, elsewhere id (by omega), later.directivesAt_outside (Or.inl before)]
    simp
  · intro id atLeast _
    rw [split, elsewhere id (by omega), inside.directivesAt_outside (Or.inr atLeast)]
    simp

/-- The start tag of an element to which directives are attached. -/
theorem startSegments_attached {announce : LogRecord → ω} {surroundings : Surroundings Json ω}
    {id : NodeId} {directives : List Directive}
    (metadata : surroundings.metadata.ofNode id = attached announce id directives)
    (element : Element) (document : Document) (depth : Nat) (interpolate : Bool) :
    startSegments surroundings document depth id element interpolate =
      [.fixed (padding depth ++ '<' :: element.tag)] ++
        fieldSegments [] (fieldsOf Directive.attributeField? directives) ++
        attributesSegments interpolate
          (element.withoutBound (attached announce id directives)).attributes ++
        fieldSegments ['.'] (fieldsOf Directive.propertyField? directives) ++
        propertiesSegments interpolate
          (element.withoutBound (attached announce id directives)).properties ++
        listenerSegments (surroundings.listenersAt document id) ++ [.fixed ['>']] := by
  rw [startSegments, metadata]
  simp only [attached, bindingSegments_map]

section Skeleton
variable {announce : LogRecord → ω} {surroundings : Surroundings Json ω} {source target : Document}
  {all : List (NodeId × Directive)}

/-- What is written for applied markup follows the forest that the markup carries. -/
theorem outlines_skeleton
    (metadata : ∀ id, surroundings.metadata.ofNode id = attached announce id (directivesAt id all))
    (agrees : source.Agrees surroundings.metadata target) {first next : Nat} {ids : List NodeId}
    {forest : List Declared} {directives : List (NodeId × Directive)}
    (carried : Carried source.node? first ids forest directives next)
    (own : ∀ id : Nat, first ≤ id → id < next → directivesAt id all = directivesAt id directives)
    (modes : NodeId → Interpolation) (bound depth : Nat) (inherited : Bool)
    (bounded : ∀ stop ∈ ids.flatMap (target.tourFrom modes bound depth inherited),
      stop.IsBounded) (current : Document) :
    Outlines depth forest (skeleton surroundings current
      (ids.flatMap (target.tourFrom modes bound depth inherited))) := by
  -- The document is threaded through the walk only for the policies, so it is generalised.
  induction carried generalizing bound depth inherited current with
  | done => exact .done
  | @text first next content ids forest directives found later ih =>
    obtain ⟨_, spans⟩ := later.spans
    have order := spans.le
    rw [List.flatMap_cons, tourFrom_text (agrees.text found), List.singleton_append, skeleton]
    rw [List.flatMap_cons, List.forall_mem_append] at bounded
    have behind := ih (fun id atLeast before => own id (by omega) before) bound depth inherited
      bounded.2 current
    exact .text (still_text surroundings _ depth inherited content) behind
  | @element first middle next element declarations ids children forest inner outer found
      attributes properties inside later ihInside ihLater =>
    obtain ⟨_, spansInside⟩ := inside.spans
    obtain ⟨_, spansLater⟩ := later.spans
    have orderInside := spansInside.le
    have orderLater := spansLater.le
    obtain ⟨atElement, atInner, atOuter⟩ :=
      directivesAt_parts inside later (declarations.filterMap Declaration.directive?)
    obtain ⟨left, same, stripped⟩ := agrees.element found
    have tag : left.tag = element.tag := (congrArg Element.tag stripped).symm
    have below : left.children = element.children := (congrArg Element.children stripped).symm
    rw [List.flatMap_cons, List.forall_mem_append] at bounded
    cases bound with
    | zero =>
      have endless := bounded.1 (.endless first) (by rw [Document.tourFrom, same]; simp)
      exact absurd endless not_false
    | succ bound =>
      have boundedBelow := bounded.1
      rw [tourFrom_element same, List.forall_mem_cons, List.forall_mem_append, below]
        at boundedBelow
      have written := own first (Nat.le_refl first) (by omega)
      rw [atElement] at written
      have insideOutline := ihInside (fun id atLeast before => (own id (by omega) (by omega)).trans
        (atInner id atLeast before)) bound (depth + 1) _ boundedBelow.2.1
      have laterOutline := ihLater (fun id atLeast before => (own id (by omega) before).trans
        (atOuter id atLeast before)) (bound + 1) depth inherited bounded.2
      have start := startSegments_attached (metadata first) left
      rw [written, tag] at start
      rw [List.flatMap_cons, tourFrom_element same, below, List.cons_append, skeleton,
        List.append_assoc, skeleton_append, List.singleton_append, skeleton, Stop.segments, start,
        Stop.segments, tag, Carried.isEmpty inside]
      exact .element (givesFields_fieldsOf _ declarations) (givesFields_fieldsOf _ declarations)
        (isStill_attributesSegments _ _) (isStill_propertiesSegments _ _) (insideOutline _)
        (laterOutline _)

end Skeleton

end Markup

end TreeTemplate
