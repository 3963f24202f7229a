import TreeTemplate.Proofs.Markup.Carrying
import TreeTemplate.Proofs.SortedMap
import TreeTemplate.Proofs.Template.Cache

/-!
# Applying directives

What is attached to an element once directives are applied is what its own directives say: the last
mode, the last field of every bound name, and the listeners. Applying goes on up to the first listener
for an event that its element has a listener for already. The document loses no more than the literals
that a binding replaces.
-/
set_option autoImplicit false

namespace TreeTemplate.Markup

variable {ω : Type}

def Directive.mode? : Directive → Option Interpolation
  | .interpolate enabled => some (if enabled then .enabled else .disabled)
  | _ => none

def Directive.attributeField? : Directive → Option (Text × Text)
  | .bindAttribute name field => some (name, field)
  | _ => none

def Directive.propertyField? : Directive → Option (Text × Text)
  | .bindProperty name field => some (name, field)
  | _ => none

def Directive.event? : Directive → Option Text
  | .listen event _ => some event
  | _ => none

def announcer (announce : LogRecord → ω) (id : NodeId) (event : Text) :
    Option (List Text) → Listener Json ω
  | none => ⟨fun item _ => announce (.heard event id item none), none⟩
  | some arguments =>
    ⟨fun item values => announce (.heard event id item (some values)), some arguments⟩

def Directive.listener? (announce : LogRecord → ω) (id : NodeId) :
    Directive → Option (Text × Listener Json ω)
  | .listen event arguments => some (event, announcer announce id event arguments)
  | _ => none

/-- The fields that the directives read for the names that they bind, the last one for each name. -/
def fieldsOf (select : Directive → Option (Text × Text)) (directives : List Directive) :
    SortedMap Text Text :=
  SortedMap.ofList (directives.filterMap select)

def attached (announce : LogRecord → ω) (id : NodeId) (directives : List Directive) :
    NodeMetadata Json ω where
  interpolation := (directives.filterMap Directive.mode?).getLast?.getD .inherit
  attributes := (fieldsOf Directive.attributeField? directives).map fieldProvider
  properties := (fieldsOf Directive.propertyField? directives).map fieldProvider
  listeners := SortedMap.ofList (directives.filterMap (Directive.listener? announce id))

def directivesAt (id : NodeId) (directives : List (NodeId × Directive)) : List Directive :=
  directives.filterMap fun pair => if pair.1 = id then some pair.2 else none

def listens (directives : List (NodeId × Directive)) : List (NodeId × Text) :=
  directives.filterMap fun pair => pair.2.event?.map fun event => (pair.1, event)

theorem directivesAt_append (id : NodeId) (left right : List (NodeId × Directive)) :
    directivesAt id (left ++ right) = directivesAt id left ++ directivesAt id right :=
  List.filterMap_append

theorem listens_append (left right : List (NodeId × Directive)) :
    listens (left ++ right) = listens left ++ listens right :=
  List.filterMap_append

section Attached
variable (announce : LogRecord → ω) (id : NodeId) (directives : List Directive)

theorem attached_interpolate (enabled : Bool) :
    attached announce id (directives ++ [.interpolate enabled]) =
      { attached announce id directives with
        interpolation := if enabled then .enabled else .disabled } := by
  simp [attached, fieldsOf, Directive.mode?, Directive.attributeField?, Directive.propertyField?,
    Directive.listener?, List.filterMap_cons]

theorem attached_bindAttribute (name field : Text) :
    attached announce id (directives ++ [.bindAttribute name field]) =
      { attached announce id directives with
        attributes :=
          (attached announce id directives).attributes.insert name (fieldProvider field) } := by
  simp [attached, fieldsOf, Directive.mode?, Directive.attributeField?, Directive.propertyField?,
    Directive.listener?, List.filterMap_cons, SortedMap.ofList_concat, SortedMap.map_insert]

theorem attached_bindProperty (name field : Text) :
    attached announce id (directives ++ [.bindProperty name field]) =
      { attached announce id directives with
        properties :=
          (attached announce id directives).properties.insert name (fieldProvider field) } := by
  simp [attached, fieldsOf, Directive.mode?, Directive.attributeField?, Directive.propertyField?,
    Directive.listener?, List.filterMap_cons, SortedMap.ofList_concat, SortedMap.map_insert]

theorem attached_listen (event : Text) (arguments : Option (List Text)) :
    attached announce id (directives ++ [.listen event arguments]) =
      { attached announce id directives with
        listeners := (attached announce id directives).listeners.insert event
          (announcer announce id event arguments) } := by
  simp [attached, fieldsOf, Directive.mode?, Directive.attributeField?, Directive.propertyField?,
    Directive.listener?, List.filterMap_cons, SortedMap.ofList_concat]

end Attached

theorem mem_directivesAt {id : NodeId} {directive : Directive}
    {directives : List (NodeId × Directive)} :
    directive ∈ directivesAt id directives ↔ (id, directive) ∈ directives := by
  simp [directivesAt, List.mem_filterMap]

theorem mem_listens {id : NodeId} {event : Text} {directives : List (NodeId × Directive)} :
    (id, event) ∈ listens directives ↔ ∃ arguments, (id, .listen event arguments) ∈ directives := by
  rw [listens, List.mem_filterMap]
  constructor
  · rintro ⟨⟨other, directive⟩, isDirective, listensTo⟩
    obtain ⟨name, isEvent, same⟩ := Option.map_eq_some_iff.mp listensTo
    obtain ⟨rfl, rfl⟩ := Prod.mk.inj same
    cases directive with
    | listen own arguments =>
      obtain rfl := Option.some.inj isEvent
      exact ⟨arguments, isDirective⟩
    | bindAttribute name field => cases isEvent
    | bindProperty name field => cases isEvent
    | interpolate enabled => cases isEvent
  · rintro ⟨arguments, isDirective⟩
    exact ⟨_, isDirective, rfl⟩

theorem has_attached_iff (announce : LogRecord → ω) (id : NodeId) (event : Text)
    (directives : List Directive) :
    (attached announce id directives).listeners.has event = true ↔
      ∃ arguments, .listen event arguments ∈ directives := by
  rw [attached, SortedMap.has_ofList_iff, Entries.keys, List.mem_map]
  constructor
  · rintro ⟨⟨name, listener⟩, member, rfl⟩
    obtain ⟨directive, isDirective, listensTo⟩ := List.mem_filterMap.mp member
    cases directive with
    | listen own arguments =>
      obtain ⟨rfl, -⟩ := Prod.mk.inj (Option.some.inj listensTo)
      exact ⟨arguments, isDirective⟩
    | bindAttribute name field => cases listensTo
    | bindProperty name field => cases listensTo
    | interpolate enabled => cases listensTo
  · rintro ⟨arguments, isDirective⟩
    exact ⟨_, List.mem_filterMap.mpr ⟨_, isDirective, rfl⟩, rfl⟩

/-- An element has a listener for an event once it listens to it. -/
theorem has_listener_iff (announce : LogRecord → ω) (id : NodeId) (event : Text)
    (directives : List (NodeId × Directive)) :
    (attached announce id (directivesAt id directives)).listeners.has event = true ↔
      (id, event) ∈ listens directives := by
  rw [has_attached_iff, mem_listens]
  simp only [mem_directivesAt]

theorem filter_unbound {β : Type} {names wider : List Text} {name : Text}
    (wide : ∀ other, other ∈ wider ↔ other = name ∨ other ∈ names) {first second : Entries Text β}
    (same : first.filter (fun pair => pair.1 ∉ names) = second.filter fun pair => pair.1 ∉ names) :
    first.filter (fun pair => pair.1 ∉ wider) =
      (second.filter fun pair => pair.1 ≠ name).filter fun pair => pair.1 ∉ wider := by
  have split (entries : Entries Text β) : entries.filter (fun pair => pair.1 ∉ wider) =
      (entries.filter fun pair => pair.1 ∉ names).filter fun pair => pair.1 ≠ name := by
    rw [List.filter_filter]
    congr 1
    funext pair
    simp [wide]
  have again : (second.filter fun pair => pair.1 ≠ name).filter (fun pair => pair.1 ∉ wider) =
      second.filter fun pair => pair.1 ∉ wider := by
    rw [List.filter_filter]
    congr 1
    funext pair
    by_cases isName : pair.1 = name <;> simp [wide, isName]
  rw [again, split, same, ← split]

section Drops
variable (metadata : NodeMetadata Json ω) (name : Text) (provider : Provider Json)
  {first second : Element} (same : first.withoutBound metadata = second.withoutBound metadata)
include same

theorem withoutBound_removeAttribute :
    first.withoutBound { metadata with attributes := metadata.attributes.insert name provider } =
      Element.withoutBound { metadata with attributes := metadata.attributes.insert name provider }
        { second with
          attributes := Entries.erase name second.attributes
          distinctAttributes := Entries.distinct_erase _ _ second.distinctAttributes } := by
  have attributes := congrArg Element.attributes same
  have properties := congrArg Element.properties same
  have tag := congrArg Element.tag same
  have children := congrArg Element.children same
  rw [Element.attributes_withoutBound, Element.attributes_withoutBound] at attributes
  refine Document.element_ext tag ?_ properties children
  have left := filter_unbound
    (fun other => metadata.attributes.mem_keys_insert name other provider) attributes
  rw [← Entries.erase_eq_filter _ _ second.distinctAttributes] at left
  rw [Element.attributes_withoutBound, Element.attributes_withoutBound]
  exact left

theorem withoutBound_removeProperty :
    first.withoutBound { metadata with properties := metadata.properties.insert name provider } =
      Element.withoutBound { metadata with properties := metadata.properties.insert name provider }
        { second with
          properties := Entries.erase name second.properties
          distinctProperties := Entries.distinct_erase _ _ second.distinctProperties } := by
  have attributes := congrArg Element.attributes same
  have properties := congrArg Element.properties same
  have tag := congrArg Element.tag same
  have children := congrArg Element.children same
  rw [Element.properties_withoutBound, Element.properties_withoutBound] at properties
  refine Document.element_ext tag attributes ?_ children
  have left := filter_unbound
    (fun other => metadata.properties.mem_keys_insert name other provider) properties
  rw [← Entries.erase_eq_filter _ _ second.distinctProperties] at left
  rw [Element.properties_withoutBound, Element.properties_withoutBound]
  exact left

end Drops

/-! ## Applying -/

section Applying
variable (announce : LogRecord → ω) (markup : Markup)

structure Applied (done : List (NodeId × Directive)) (renderer : Renderer Json ω) : Prop where
  roots : renderer.roots = markup.roots
  named : renderer.named = SortedMap.empty
  policies : renderer.policies = []
  kept : renderer.kept = none
  metadata : ∀ id, renderer.metadata.ofNode id = attached announce id (directivesAt id done)
  agrees : markup.document.Agrees renderer.metadata renderer.document

variable {announce markup} {done : List (NodeId × Directive)} {renderer : Renderer Json ω}

theorem applied_ofDocument (success : Renderer.ofDocument markup.document markup.roots = .ok renderer) :
    Applied announce markup [] renderer := by
  rw [Renderer.ofDocument] at success
  split at success
  · cases success
  · split at success
    · cases success
    · obtain rfl := Except.ok.inj success
      exact ⟨rfl, rfl, rfl, rfl, fun _ => rfl, Document.Agrees.refl _⟩

/-- What is attached to the changed element is what its directives say with the new one, and nothing
changes elsewhere. -/
theorem Applied.metadata_insert (applied : Applied announce markup done renderer) {id : NodeId}
    {directive : Directive} {own : NodeMetadata Json ω}
    (isOwn : own = attached announce id (directivesAt id done ++ [directive])) (other : NodeId) :
    Metadata.ofNode (renderer.metadata.insert id own) other =
      attached announce other (directivesAt other (done ++ [(id, directive)])) := by
  rw [directivesAt_append]
  by_cases same : other = id
  · subst same
    rw [ofNode_insert_same, isOwn]
    simp [directivesAt]
  · rw [ofNode_insert_other _ _ same, applied.metadata]
    simp [directivesAt, Ne.symm same]

/-- An attachment that binds the same names leaves the document as it is. -/
theorem Applied.attach (applied : Applied announce markup done renderer) {id : NodeId}
    {directive : Directive} {own : NodeMetadata Json ω}
    (isOwn : own = attached announce id (directivesAt id done ++ [directive]))
    (same : ∀ element : Element,
      element.withoutBound own = element.withoutBound (renderer.metadata.ofNode id)) :
    Applied announce markup (done ++ [(id, directive)])
      (renderer.withDraft (renderer.draft.attach id own)) where
  roots := applied.roots
  named := applied.named
  policies := applied.policies
  kept := rfl
  metadata := applied.metadata_insert isOwn
  agrees := by
    refine applied.agrees.attach (fun other => ofNode_insert_other _ own) ?_
    intro element
    change element.withoutBound (Metadata.ofNode (renderer.metadata.insert id own) id) = _
    rw [ofNode_insert_same]
    exact same element

/-- An attachment that binds one more name comes with a change that drops the literal of the name. -/
theorem Applied.bind (applied : Applied announce markup done renderer) {id : NodeId}
    {directive : Directive} {own : NodeMetadata Json ω} {change : Element → Element}
    (isOwn : own = attached announce id (directivesAt id done ++ [directive]))
    (drops : ∀ first second : Element,
      first.withoutBound (renderer.metadata.ofNode id) =
          second.withoutBound (renderer.metadata.ofNode id) →
        first.withoutBound own = (change second).withoutBound own) :
    Applied announce markup (done ++ [(id, directive)])
      (renderer.withDraft ((renderer.draft.attach id own).withDocument
        (renderer.document.onElement id change))) where
  roots := applied.roots
  named := applied.named
  policies := applied.policies
  kept := rfl
  metadata := applied.metadata_insert isOwn
  agrees := by
    refine applied.agrees.onElement (fun other => ofNode_insert_other _ own) ?_
    intro first second same
    change first.withoutBound (Metadata.ofNode (renderer.metadata.insert id own) id) =
      Element.withoutBound (Metadata.ofNode (renderer.metadata.insert id own) id) (change second)
    rw [ofNode_insert_same]
    exact drops first second same

theorem edit_listen (announce : LogRecord → ω) (id : NodeId) (event : Text)
    (arguments : Option (List Text)) :
    Directive.edit announce id (.listen event arguments) =
      .listen event (announcer announce id event arguments) := by
  cases arguments <;> rfl

/-- A directive of an element that the renderer accepts is applied, unless it listens to an event for
the second time. -/
theorem Applied.change (applied : Applied announce markup done renderer) {id : NodeId}
    (accepts : renderer.Accepts id) (directive : Directive) :
    (∃ changed, renderer.change id (directive.edit announce id) = (.ok (), changed) ∧
        Applied announce markup (done ++ [(id, directive)]) changed ∧
          ∀ event, directive.event? = some event → (id, event) ∉ listens done) ∨
      ∃ event changed, directive.event? = some event ∧ (id, event) ∈ listens done ∧
        renderer.change id (directive.edit announce id) =
          (.error (.duplicateListener event), changed) := by
  have accepted := (renderer.refusal?_eq_none_iff id).mpr accepts
  have own : renderer.draft.metadata.ofNode id = attached announce id (directivesAt id done) :=
    applied.metadata id
  have quiet (eventless : directive.event? = none) (event : Text)
      (isEvent : directive.event? = some event) : (id, event) ∉ listens done := by
    rw [eventless] at isEvent
    cases isEvent
  rw [Renderer.change, accepted]
  dsimp only
  cases directive with
  | interpolate enabled =>
    refine Or.inl ⟨_, rfl, applied.attach ?_ fun element => rfl, quiet rfl⟩
    rw [attached_interpolate, ← own]
  | bindAttribute name field =>
    refine Or.inl ⟨_, rfl, applied.bind ?_ ?_, quiet rfl⟩
    · rw [attached_bindAttribute, ← own]
    · intro first second same
      exact withoutBound_removeAttribute _ name _ same
  | bindProperty name field =>
    refine Or.inl ⟨_, rfl, applied.bind ?_ ?_, quiet rfl⟩
    · rw [attached_bindProperty, ← own]
    · intro first second same
      exact withoutBound_removeProperty _ name _ same
  | listen event arguments =>
    have heard := has_listener_iff announce id event done
    rw [edit_listen, Draft.edit, NodeMetadata.addListener, own]
    by_cases repeated : (id, event) ∈ listens done
    · rw [if_pos (heard.mpr repeated)]
      exact Or.inr ⟨event, _, rfl, repeated, rfl⟩
    · rw [if_neg (mt heard.mp repeated)]
      refine Or.inl ⟨_, rfl, applied.attach ?_ ?_, ?_⟩
      · rw [attached_listen]
      · intro element
        rw [applied.metadata]
        rfl
      · intro other isEvent
        rw [← Option.some.inj isEvent]
        exact repeated

/-- A directive listens to the event where its element does so already, and none before it does. -/
def RepeatsListener (directives : List (NodeId × Directive)) (event : Text) : Prop :=
  ∃ before behind id arguments, directives = before ++ (id, .listen event arguments) :: behind ∧
    (id, event) ∈ listens before ∧ (listens before).Nodup

theorem Applied.accepts (applied : Applied announce markup done renderer) {id : NodeId}
    (reached : ∃ root ∈ markup.roots, markup.document.Reaches root id)
    (isElement : (markup.document.element? id).isSome = true) : renderer.Accepts id := by
  have children : renderer.document.children = markup.document.children :=
    funext fun other => (applied.agrees.children other).symm
  refine ⟨?_, (applied.agrees.isElement id).symm.trans isElement⟩
  rw [applied.roots]
  unfold Document.Reaches at reached ⊢
  rw [children]
  exact reached

theorem nodup_listens_concat {directive : Directive} {id : NodeId}
    (distinct : (listens done).Nodup)
    (fresh : ∀ event, directive.event? = some event → (id, event) ∉ listens done) :
    (listens (done ++ [(id, directive)])).Nodup := by
  rw [listens_append]
  cases isEvent : directive.event? with
  | none => simpa [listens, isEvent] using distinct
  | some event =>
    have last : listens [(id, directive)] = [(id, event)] := by simp [listens, isEvent]
    rw [last, List.nodup_append_comm, List.singleton_append, List.nodup_cons]
    exact ⟨fresh event isEvent, distinct⟩

/-- Directives of elements at and below the roots are applied up to the first one that repeats a
listener. -/
theorem Applied.run (applied : Applied announce markup done renderer)
    (distinct : (listens done).Nodup) (directives : List (NodeId × Directive))
    (reached : ∀ pair ∈ directives, (∃ root ∈ markup.roots, markup.document.Reaches root pair.1) ∧
      (markup.document.element? pair.1).isSome = true) :
    (∃ final, applyDirectives announce renderer directives = .ok final ∧
        Applied announce markup (done ++ directives) final ∧
          (listens (done ++ directives)).Nodup) ∨
      ∃ event, applyDirectives announce renderer directives = .error (.duplicateListener event) ∧
        RepeatsListener (done ++ directives) event := by
  induction directives generalizing done renderer with
  | nil =>
    refine Or.inl ⟨renderer, rfl, ?_⟩
    rw [List.append_nil]
    exact ⟨applied, distinct⟩
  | cons pair rest ih =>
    obtain ⟨id, directive⟩ := pair
    rw [List.forall_mem_cons] at reached
    have accepts := applied.accepts reached.1.1 reached.1.2
    rw [applyDirectives]
    rcases applied.change accepts directive with
      ⟨changed, succeeds, appliedNext, fresh⟩ | ⟨event, changed, isEvent, repeated, fails⟩
    · rw [succeeds]
      have later := ih appliedNext (nodup_listens_concat distinct fresh) reached.2
      rwa [List.append_assoc, List.singleton_append] at later
    · rw [fails]
      cases directive with
      | listen own arguments =>
        obtain rfl := Option.some.inj isEvent
        exact Or.inr ⟨own, rfl, done, rest, id, arguments, rfl, repeated, distinct⟩
      | bindAttribute name field => cases isEvent
      | bindProperty name field => cases isEvent
      | interpolate enabled => cases isEvent

end Applying

end TreeTemplate.Markup
