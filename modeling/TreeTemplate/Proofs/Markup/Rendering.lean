import TreeTemplate.Proofs.Markup.Applying

/-!
# What can go wrong behind a parse

Every directive of parsed markup belongs to an element at or below a root, and every child exists and
comes behind its parent. So the directives are refused only for a repeated listener, and a template is
refused only for a null that no binding replaces.
-/
set_option autoImplicit false

namespace TreeTemplate

namespace Markup

variable {ω : Type}

theorem Carried.spans {node? : NodeId → Option Node} {first next : Nat} {ids : List NodeId}
    {forest : List Declared} {directives : List (NodeId × Directive)}
    (carried : Carried node? first ids forest directives next) :
    ∃ blueprints, Spans node? first ids blueprints next := by
  induction carried with
  | done => exact ⟨[], .done⟩
  | text found later ih =>
    obtain ⟨blueprints, spans⟩ := ih
    exact ⟨_, .text found spans⟩
  | element found attributes properties inside later ihInside ihLater =>
    obtain ⟨children, spansInside⟩ := ihInside
    obtain ⟨blueprints, spansLater⟩ := ihLater
    exact ⟨_, .element found spansInside spansLater⟩

theorem Carried.isEmpty {node? : NodeId → Option Node} {first next : Nat} {ids : List NodeId}
    {forest : List Declared} {directives : List (NodeId × Directive)}
    (carried : Carried node? first ids forest directives next) : ids.isEmpty = forest.isEmpty := by
  cases carried <;> rfl

/-- A directive belongs to an element of the forest. -/
theorem Carried.of_mem {node? : NodeId → Option Node} {first next : Nat} {ids : List NodeId}
    {forest : List Declared} {directives : List (NodeId × Directive)}
    (carried : Carried node? first ids forest directives next) {id : Nat} {directive : Directive}
    (member : (id, directive) ∈ directives) :
    first ≤ id ∧ id < next ∧ ∃ element, node? id = some (.element element) := by
  induction carried with
  | done => cases member
  | text found later ih =>
    obtain ⟨atLeast, before, isElement⟩ := ih member
    exact ⟨by omega, before, isElement⟩
  | element found attributes properties inside later ihInside ihLater =>
    obtain ⟨inner, spansInside⟩ := inside.spans
    obtain ⟨outer, spansLater⟩ := later.spans
    have behindInside := spansInside.le
    have behindLater := spansLater.le
    rcases List.mem_append.mp member with own | below
    · obtain ⟨directive, -, same⟩ := List.mem_map.mp own
      obtain ⟨rfl, -⟩ := Prod.mk.inj same
      exact ⟨Nat.le_refl _, by omega, _, found⟩
    · rcases List.mem_append.mp below with inInside | inLater
      · obtain ⟨atLeast, before, isElement⟩ := ihInside inInside
        exact ⟨by omega, by omega, isElement⟩
      · obtain ⟨atLeast, before, isElement⟩ := ihLater inLater
        exact ⟨by omega, before, isElement⟩

section Carries
variable {markup : Markup} {forest : List Declared} (carries : markup.Carries forest)
include carries

/-- The nodes of parsed markup are visited in the order of their identities. -/
theorem Carries.visits :
    markup.document.Visits markup.roots (List.range markup.document.size) := by
  obtain ⟨blueprints, spans⟩ := Carried.spans carries
  have visits := spans.visits
  rwa [Nat.sub_zero, ← List.range_eq_range'] at visits

theorem Carries.acyclicBelow : markup.document.AcyclicBelow markup.roots := by
  obtain ⟨blueprints, spans⟩ := Carried.spans carries
  exact Document.ShowsAll.acyclicBelow spans.shows

theorem Carries.reached (pair : NodeId × Directive) (member : pair ∈ markup.directives) :
    (∃ root ∈ markup.roots, markup.document.Reaches root pair.1) ∧
      (markup.document.element? pair.1).isSome = true := by
  obtain ⟨-, before, element, found⟩ := Carried.of_mem carries member
  refine ⟨(carries.visits.preorder.mem_iff pair.1).mp (List.mem_range.mpr before), ?_⟩
  simp [Document.element?, found, Node.element?]

theorem Carries.ofDocument (filled : forest ≠ []) :
    ∃ blank : Renderer Json ω, Renderer.ofDocument markup.document markup.roots = .ok blank := by
  have rooted : markup.roots.isEmpty = false := by
    rw [Carried.isEmpty carries, List.isEmpty_eq_false_iff]
    exact filled
  have nodes : markup.roots.find? (fun root => !markup.document.hasNode root) = none := by
    rw [List.find?_eq_none]
    intro root isRoot
    have inside := carries.visits.preorder.mem_roots root isRoot
    have isNode : markup.document.hasNode root = true :=
      decide_eq_true (List.mem_range.mp inside)
    simp [isNode]
  rw [Renderer.ofDocument, rooted, nodes]
  exact ⟨_, rfl⟩

theorem Carries.renderer_cases (announce : LogRecord → ω) (filled : forest ≠ []) :
    (∃ renderer, markup.renderer announce = .ok renderer ∧
        Applied announce markup markup.directives renderer ∧ (listens markup.directives).Nodup) ∨
      ∃ event, markup.renderer announce = .error (.duplicateListener event) ∧
        RepeatsListener markup.directives event := by
  obtain ⟨blank, created⟩ : ∃ blank : Renderer Json ω, _ := carries.ofDocument filled
  have applied : Applied announce markup [] blank := applied_ofDocument created
  have run := applied.run List.nodup_nil markup.directives carries.reached
  rw [Markup.renderer, created]
  exact run

end Carries

theorem not_nodup_listens {before behind : List (NodeId × Directive)} {id : NodeId} {event : Text}
    {arguments : Option (List Text)} (repeated : (id, event) ∈ listens before) :
    ¬(listens (before ++ (id, .listen event arguments) :: behind)).Nodup := by
  intro distinct
  rw [listens_append, List.nodup_append] at distinct
  have listening : (id, event) ∈ listens ((id, .listen event arguments) :: behind) :=
    mem_listens.mpr ⟨arguments, List.mem_cons_self⟩
  exact distinct.2.2 _ repeated _ listening rfl

/-- There is one first repetition at most. -/
theorem RepeatsListener.functional {directives : List (NodeId × Directive)} {event other : Text}
    (first : RepeatsListener directives event) (second : RepeatsListener directives other) :
    event = other := by
  obtain ⟨before, behind, id, arguments, rfl, repeated, distinct⟩ := first
  obtain ⟨others, rest, node, values, shape, again, distinctOthers⟩ := second
  -- Of two repetitions, the earlier one would stand among the directives before the later one.
  rcases List.append_eq_append_iff.mp shape with ⟨between, rfl, same⟩ | ⟨between, rfl, same⟩
  · cases between with
    | nil =>
      obtain ⟨-, directives⟩ := Prod.mk.inj (List.cons.inj same).1
      exact (Directive.listen.inj directives).1
    | cons head tail =>
      obtain ⟨rfl, -⟩ := List.cons.inj same
      exact absurd distinctOthers (not_nodup_listens repeated)
  · cases between with
    | nil =>
      obtain ⟨-, directives⟩ := Prod.mk.inj (List.cons.inj same).1
      exact (Directive.listen.inj directives).1.symm
    | cons head tail =>
      obtain ⟨rfl, -⟩ := List.cons.inj same
      exact absurd distinct (not_nodup_listens again)

/-! ## Rendering -/

def boundProperties (markup : Markup) (id : NodeId) : List Text :=
  Entries.keys ((directivesAt id markup.directives).filterMap Directive.propertyField?)

def unwritable (markup : Markup) (id : NodeId) : List Text :=
  Entries.keys ((markup.document.properties id).filter fun pair =>
    pair.2.isNull && !(markup.boundProperties id).contains pair.1)

theorem fault?_attached (announce : LogRecord → ω) (id : NodeId) (directives : List Directive)
    (element : Element) :
    element.fault? (attached announce id directives) =
      (Entries.keys (element.properties.filter fun pair => pair.2.isNull &&
        !(Entries.keys (directives.filterMap Directive.propertyField?)).contains pair.1)).head?.map
          TemplateError.unsupportedValue := by
  have bound (name : Text) : (attached announce id directives).properties.keys.contains name =
      (Entries.keys (directives.filterMap Directive.propertyField?)).contains name := by
    rw [Bool.eq_iff_iff, List.contains_iff_mem, List.contains_iff_mem, ← SortedMap.has_iff_mem_keys,
      attached, SortedMap.has, SortedMap.find?_map, Option.isSome_map]
    exact SortedMap.has_ofList_iff _ name
  rw [Element.fault?, Entries.keys, List.head?_map, List.head?_filter, Option.map_map]
  simp only [bound]
  rfl

/-- A compile gets stuck at an element where there is something to stumble over. -/
theorem Applied.fault? {announce : LogRecord → ω} {markup : Markup} {renderer : Renderer Json ω}
    (applied : Applied announce markup markup.directives renderer) {id : NodeId}
    (isNode : markup.document.hasNode id = true) :
    renderer.document.fault? renderer.metadata id =
      (markup.unwritable id).head?.map TemplateError.unsupportedValue := by
  rcases applied.agrees.node_cases id with ⟨missing, -⟩ | ⟨content, found, same⟩ |
    ⟨first, second, found, same, stripped⟩
  · rw [Document.not_hasNode_of_node? missing] at isNode
    cases isNode
  · rw [Document.fault?, same, unwritable, Document.properties, Document.element?, found]
    rfl
  · rw [Document.fault?, same, unwritable, Document.properties, Document.element?, found]
    change second.fault? _ = _
    rw [← Element.fault?_withoutBound, ← stripped, Element.fault?_withoutBound, applied.metadata,
      fault?_attached]
    rfl

end Markup

def Operation.IsAddition {ι ω : Type} : Operation ι ω → Prop
  | .addProperty _ _ => True
  | .addPolicy _ => True
  | _ => False

namespace Renderer
variable {ι ω : Type}

theorem performAll_additions (operations : List (Operation ι ω))
    (additions : ∀ operation ∈ operations, operation.IsAddition) (renderer : Renderer ι ω) :
    (renderer.performAll operations).draft = renderer.draft ∧
      (renderer.performAll operations).roots = renderer.roots ∧
        (renderer.kept = none → (renderer.performAll operations).kept = none) := by
  induction operations generalizing renderer with
  | nil => exact ⟨rfl, rfl, id⟩
  | cons operation rest ih =>
    rw [List.forall_mem_cons] at additions
    obtain ⟨draft, roots, kept⟩ := ih additions.2 (renderer.perform operation)
    rw [performAll, List.foldl_cons, ← performAll]
    cases operation with
    | addProperty name provider => exact ⟨draft, roots, fun _ => kept rfl⟩
    | addPolicy policy => exact ⟨draft, roots, fun _ => kept rfl⟩
    | _ => exact absurd additions.1 not_false

end Renderer

namespace Markup
variable {ω : Type}

theorem findSome?_congr {α β : Type} {list : List α} {first second : α → Option β}
    (same : ∀ value ∈ list, first value = second value) :
    list.findSome? first = list.findSome? second := by
  induction list with
  | nil => rfl
  | cons head rest ih =>
    rw [List.forall_mem_cons] at same
    rw [List.findSome?_cons, List.findSome?_cons, same.1, ih same.2]

/-- A compile of applied markup is refused for the first null that no binding replaces. -/
theorem Applied.compilation_fault? {announce : LogRecord → ω} {markup : Markup}
    {forest : List Declared} (carries : markup.Carries forest) {renderer extended : Renderer Json ω}
    (applied : Applied announce markup markup.directives renderer)
    (draft : extended.draft = renderer.draft) (roots : extended.roots = renderer.roots) :
    extended.compilation.fault? =
      ((List.range markup.document.size).flatMap markup.unwritable).head?.map
        TemplateError.unsupportedValue := by
  have children : renderer.document.children = markup.document.children :=
    funext fun id => (applied.agrees.children id).symm
  have preorder : renderer.document.Preorder markup.roots (List.range markup.document.size) :=
    carries.visits.preorder.congr children
  have acyclic : renderer.document.AcyclicBelow markup.roots := carries.acyclicBelow.congr children
  have compiles : extended.compilation = compile ⟨renderer.metadata, extended.policies⟩
      renderer.document markup.roots extended.named := by
    rw [Renderer.compilation, Renderer.metadata, Renderer.document, draft, roots, applied.roots]
    rfl
  rw [compiles, compile_fault?_eq _ _ _ _ acyclic preorder, List.head?_flatMap,
    List.map_findSome?]
  refine findSome?_congr ?_
  intro id member
  exact applied.fault? (decide_eq_true (List.mem_range.mp member))

structure FailsOnlyFor (announce : LogRecord → ω) (markup : Markup) : Prop where
  prepares : (∃ renderer, markup.renderer announce = .ok renderer) ↔ (listens markup.directives).Nodup
  repeated : ∀ reason, markup.renderer announce = .error reason ↔
    ∃ event, RepeatsListener markup.directives event ∧ reason = .duplicateListener event
  inOrder : markup.document.Visits markup.roots (List.range markup.document.size)
  unwritten : ∀ renderer, markup.renderer announce = .ok renderer →
    ∀ additions : List (Operation Json ω), (∀ operation ∈ additions, operation.IsAddition) →
      ∀ reason, (renderer.performAll additions).render.1 = .error reason ↔
        ∃ name, ((List.range markup.document.size).flatMap markup.unwritable).head? = some name ∧
          reason = .unsupportedValue name

/-- Where parsing succeeds, preparing a renderer fails for the first repeated listener only, and
rendering with whatever properties and policies fails for the first null property in the order of
the document that is not bound. -/
theorem parsed_fails_only_for (announce : LogRecord → ω) {source : Text} {markup : Markup}
    (parsed : Markup.parse source = .ok markup) : FailsOnlyFor announce markup := by
  obtain ⟨forest, carries, filled⟩ := carries_of_parse parsed
  have cases := carries.renderer_cases announce filled
  refine ⟨?_, ?_, carries.visits, ?_⟩
  · constructor
    · rintro ⟨renderer, prepared⟩
      rcases cases with ⟨-, -, -, distinct⟩ | ⟨event, failed, -⟩
      · exact distinct
      · cases failed.symm.trans prepared
    · intro distinct
      rcases cases with ⟨renderer, prepared, -⟩ | ⟨event, failed, repeats⟩
      · exact ⟨renderer, prepared⟩
      · obtain ⟨before, behind, id, arguments, shape, again, -⟩ := repeats
        rw [shape] at distinct
        exact absurd distinct (not_nodup_listens again)
  · intro reason
    rcases cases with ⟨renderer, prepared, -, distinct⟩ | ⟨event, failed, repeats⟩
    · constructor
      · intro failed
        cases prepared.symm.trans failed
      · rintro ⟨event, ⟨before, behind, id, arguments, shape, again, -⟩, rfl⟩
        rw [shape] at distinct
        exact absurd distinct (not_nodup_listens again)
    · rw [failed, Except.error.injEq]
      constructor
      · rintro rfl
        exact ⟨event, repeats, rfl⟩
      · rintro ⟨other, others, rfl⟩
        rw [repeats.functional others]
  · intro renderer prepared additions areAdditions reason
    rcases cases with ⟨own, created, applied, -⟩ | ⟨event, failed, -⟩
    · obtain rfl := Except.ok.inj (created.symm.trans prepared)
      obtain ⟨draft, roots, kept⟩ := Renderer.performAll_additions additions areAdditions own
      rw [Renderer.render_eq_error_iff (kept applied.kept),
        applied.compilation_fault? carries draft roots, Option.map_eq_some_iff]
      simp only [eq_comm]
    · cases failed.symm.trans prepared

/-- The paragraph binds its null; the second element hears the same event, and does not. -/
def nullSource : Text :=
  "<p .a:json=\x27null\x27 :.a=\x27f\x27 @k><b .c=\x27x\x27 .c:json=\x27null\x27 @k/></p>".toList

theorem null_source_fails_only_for :
    ∃ markup, Markup.parse nullSource = .ok markup ∧ FailsOnlyFor id markup ∧
      (listens markup.directives).Nodup ∧
        ((List.range markup.document.size).flatMap markup.unwritable).head? = some ['c'] := by
  have computed : (Markup.parse nullSource).toOption.any (fun markup =>
      decide ((listens markup.directives).Nodup ∧
        ((List.range markup.document.size).flatMap markup.unwritable).head? = some ['c'])) = true := by
    decide +kernel
  obtain ⟨markup, parsed, holds⟩ := exists_ok_of_any computed
  exact ⟨markup, parsed, parsed_fails_only_for id parsed, of_decide_eq_true holds⟩

end Markup

end TreeTemplate
