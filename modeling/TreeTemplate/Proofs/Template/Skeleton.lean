import TreeTemplate.Proofs.Binding.Names
import TreeTemplate.Template.Compiler

/-!
# Skeletons

A skeleton is a template before its names are filled in: fixed text, dynamic bindings and
listeners, values that are written as they are and contents that are written as literals, each in
its place. `numbered` fills in the names by counting the bindings and the listeners passed so far,
without a registry.
-/
set_option autoImplicit false

namespace TreeTemplate

variable {ι ω : Type}

structure DynamicBinding (ι : Type) where
  mark : Text
  name : Text
  provider : Provider ι

/-- A piece of a template whose synthetic names are left open. -/
inductive Segment (ι ω : Type) where
  | fixed (text : Text)
  | constant (expression : Text)
  | literal (content : Text)
  | binding (binding : DynamicBinding ι)
  | listener (event : Text) (listener : Listener ι ω)

namespace Segment

def bindings : Segment ι ω → List (DynamicBinding ι)
  | .binding own => [own]
  | _ => []

def listeners : Segment ι ω → Entries Text (Listener ι ω)
  | .listener event own => [(event, own)]
  | _ => []

def literal? : Segment ι ω → Option Text
  | .literal content => some content
  | _ => none

/-- The text of a segment with so many bindings and listeners before it. -/
noncomputable def written (named : SortedMap Text (Provider ι)) (bound heard : Nat) :
    Segment ι ω → Text
  | .fixed text => text
  | .constant expression => placeholder expression
  | .literal content => encodeLiteral content
  | .binding own => ' ' :: own.mark ++ own.name ++ '=' :: itemReference (syntheticName named bound)
  | .listener event own =>
    ' ' :: '@' :: event ++ '=' :: placeholder (listenerText (functionName heard) own.arguments)

end Segment

def bindingsOf (segments : List (Segment ι ω)) : List (DynamicBinding ι) :=
  segments.flatMap Segment.bindings

def listenersOf (segments : List (Segment ι ω)) : Entries Text (Listener ι ω) :=
  segments.flatMap Segment.listeners

def literalsOf (segments : List (Segment ι ω)) : List Text :=
  segments.filterMap Segment.literal?

/-- The text of the segments, the bindings and the listeners counted from the given numbers on. -/
noncomputable def numbered (named : SortedMap Text (Provider ι)) :
    Nat → Nat → List (Segment ι ω) → Text
  | _, _, [] => []
  | bound, heard, segment :: rest =>
    segment.written named bound heard ++
      numbered named (bound + segment.bindings.length) (heard + segment.listeners.length) rest

theorem bindingsOf_append (left right : List (Segment ι ω)) :
    bindingsOf (left ++ right) = bindingsOf left ++ bindingsOf right :=
  List.flatMap_append

theorem listenersOf_append (left right : List (Segment ι ω)) :
    listenersOf (left ++ right) = listenersOf left ++ listenersOf right :=
  List.flatMap_append

theorem literalsOf_append (left right : List (Segment ι ω)) :
    literalsOf (left ++ right) = literalsOf left ++ literalsOf right :=
  List.filterMap_append

theorem numbered_append (named : SortedMap Text (Provider ι)) (bound heard : Nat)
    (left right : List (Segment ι ω)) :
    numbered named bound heard (left ++ right) =
      numbered named bound heard left ++
        numbered named (bound + (bindingsOf left).length) (heard + (listenersOf left).length)
          right := by
  induction left generalizing bound heard with
  | nil => rfl
  | cons segment rest ih =>
    simp only [List.cons_append, numbered, ih, bindingsOf, listenersOf, List.flatMap_cons,
      List.length_append, List.append_assoc, Nat.add_assoc]

/-- The dynamic attributes of an element and then its dynamic properties, both in name order. -/
def NodeMetadata.dynamicBindings (metadata : NodeMetadata ι ω) : List (DynamicBinding ι) :=
  metadata.attributes.entries.map (fun pair => ⟨[], pair.1, pair.2⟩) ++
    metadata.properties.entries.map (fun pair => ⟨['.'], pair.1, pair.2⟩)

/-- The listeners of an element: those of the caller in event order, then those of the policies in
their order. -/
def Surroundings.listenersAt (surroundings : Surroundings ι ω) (document : Document)
    (id : NodeId) : Entries Text (Listener ι ω) :=
  (surroundings.metadata.ofNode id).listeners.entries ++ surroundings.synthesized document id

def bindingSegments (mark : Text) (entries : Entries Text (Provider ι)) : List (Segment ι ω) :=
  entries.map fun pair => .binding ⟨mark, pair.1, pair.2⟩

def listenerSegments (listeners : Entries Text (Listener ι ω)) : List (Segment ι ω) :=
  listeners.map fun pair => .listener pair.1 pair.2

def attributeSegments (interpolate : Bool) (name value : Text) : List (Segment ι ω) :=
  if value.isEmpty then [.fixed (' ' :: name)]
  else if interpolate then
    [.fixed (' ' :: name ++ ['=']), .fixed (encodeInterpolatedValue value).text]
  else [.fixed (' ' :: name ++ ['=']), .literal value]

def propertySegment (interpolate : Bool) : PropertyValue → Segment ι ω
  | .bool value => .constant (boolText value)
  | .number value => .constant value.scriptText
  | .string value => stringSegment value
  | .json (.string value) => stringSegment value
  | .json (.bool value) => .constant (boolText value)
  | .json (.integer value) => .constant (Number.ofInt value).scriptText
  | .json (.float value) => .constant (Number.finite value).scriptText
  | .json (.array items) => .constant (Json.array items).compact
  | .json (.object fields) => .constant (Json.object fields).compact
  | .json .null => .fixed []
where
  stringSegment (value : Text) : Segment ι ω :=
    if interpolate then .fixed (encodeStringProperty true value).text else .literal value

def attributesSegments (interpolate : Bool) (attributes : Entries Text Text) :
    List (Segment ι ω) :=
  attributes.flatMap fun pair => attributeSegments interpolate pair.1 pair.2

def propertiesSegments (interpolate : Bool) (properties : Entries Text PropertyValue) :
    List (Segment ι ω) :=
  properties.flatMap fun pair =>
    [.fixed (' ' :: '.' :: pair.1 ++ ['=']), propertySegment interpolate pair.2]

def startSegments (surroundings : Surroundings ι ω) (document : Document) (depth : Nat)
    (id : NodeId) (element : Element) (interpolate : Bool) : List (Segment ι ω) :=
  let metadata := surroundings.metadata.ofNode id
  let bare := element.withoutBound metadata
  [.fixed (padding depth ++ '<' :: element.tag)] ++
    bindingSegments [] metadata.attributes.entries ++
    attributesSegments interpolate bare.attributes ++
    bindingSegments ['.'] metadata.properties.entries ++
    propertiesSegments interpolate bare.properties ++
    listenerSegments (surroundings.listenersAt document id) ++ [.fixed ['>']]

def looksLikeCode (content : Text) : Bool :=
  Text.occurs placeholderOpening content || content.contains '\x60'

def Stop.segments (surroundings : Surroundings ι ω) (document : Document) :
    Stop → List (Segment ι ω)
  | .text depth interpolate content =>
    if !interpolate && looksLikeCode content then [.fixed (padding depth), .literal content]
    else [.fixed (padding depth), .fixed (encodeCharacterData content)]
  | .enter depth id element _ interpolate =>
    startSegments surroundings document depth id element interpolate
  | .leave depth tag childless =>
    let closing := '<' :: '/' :: tag ++ ['>']
    [.fixed (if childless then closing else padding depth ++ closing)]
  | .missing _ => []
  | .endless _ => []

/-- The template of a tour before its names are filled in. -/
def skeleton (surroundings : Surroundings ι ω) (document : Document) :
    List Stop → List (Segment ι ω)
  | [] => []
  | stop :: rest =>
    let stripped := stop.strip surroundings.metadata document
    stop.segments surroundings stripped ++ skeleton surroundings stripped rest

def Document.stripAll (metadata : Metadata ι ω) (document : Document)
    (tour : List Stop) : Document :=
  tour.foldl (fun current stop => stop.strip metadata current) document

theorem skeleton_append (surroundings : Surroundings ι ω) (document : Document)
    (left right : List Stop) :
    skeleton surroundings document (left ++ right) =
      skeleton surroundings document left ++
        skeleton surroundings (document.stripAll surroundings.metadata left) right := by
  induction left generalizing document with
  | nil => rfl
  | cons stop rest ih =>
    rw [List.cons_append, skeleton, skeleton, ih, List.append_assoc]
    rfl

/-! ## What a skeleton holds -/

theorem mem_bindingsOf_iff (binding : DynamicBinding ι) (segments : List (Segment ι ω)) :
    binding ∈ bindingsOf segments ↔ .binding binding ∈ segments := by
  rw [bindingsOf, List.mem_flatMap]
  constructor
  · rintro ⟨segment, isSegment, isOwn⟩
    cases segment with
    | binding own =>
      obtain rfl := List.mem_singleton.mp isOwn
      exact isSegment
    | _ => cases isOwn
  · intro isSegment
    exact ⟨_, isSegment, List.mem_singleton.mpr rfl⟩

theorem bindingsOf_bindingSegments (mark : Text) (entries : Entries Text (Provider ι)) :
    bindingsOf (bindingSegments mark entries : List (Segment ι ω)) =
      entries.map fun pair => ⟨mark, pair.1, pair.2⟩ := by
  simp only [bindingsOf, bindingSegments, Segment.bindings, List.flatMap_map,
    ← List.map_eq_flatMap]

theorem listenersOf_bindingSegments (mark : Text) (entries : Entries Text (Provider ι)) :
    listenersOf (bindingSegments mark entries : List (Segment ι ω)) = [] := by
  simp [listenersOf, bindingSegments, Segment.listeners, List.flatMap_map]

theorem literalsOf_bindingSegments (mark : Text) (entries : Entries Text (Provider ι)) :
    literalsOf (bindingSegments mark entries : List (Segment ι ω)) = [] := by
  simp [literalsOf, bindingSegments, Segment.literal?]

theorem bindingsOf_listenerSegments (listeners : Entries Text (Listener ι ω)) :
    bindingsOf (listenerSegments listeners) = [] := by
  simp [bindingsOf, listenerSegments, Segment.bindings, List.flatMap_map]

theorem listenersOf_listenerSegments (listeners : Entries Text (Listener ι ω)) :
    listenersOf (listenerSegments listeners) = listeners := by
  simp [listenersOf, listenerSegments, Segment.listeners, List.flatMap_map]

theorem literalsOf_listenerSegments (listeners : Entries Text (Listener ι ω)) :
    literalsOf (listenerSegments listeners) = [] := by
  simp [literalsOf, listenerSegments, Segment.literal?]

def Segment.IsStill (segment : Segment ι ω) : Prop :=
  segment.bindings = [] ∧ segment.listeners = []

theorem isStill_propertySegment (interpolate : Bool) (value : PropertyValue) :
    (propertySegment interpolate value : Segment ι ω).IsStill := by
  have isString (content : Text) :
      (propertySegment.stringSegment interpolate content : Segment ι ω).IsStill := by
    rw [propertySegment.stringSegment]
    split <;> exact ⟨rfl, rfl⟩
  cases value with
  | bool flag => exact ⟨rfl, rfl⟩
  | number quantity => exact ⟨rfl, rfl⟩
  | string content => exact isString content
  | json json =>
    cases json with
    | string content => exact isString content
    | _ => exact ⟨rfl, rfl⟩

theorem isStill_attributesSegments (interpolate : Bool) (attributes : Entries Text Text)
    (segment : Segment ι ω) (member : segment ∈ attributesSegments interpolate attributes) :
    segment.IsStill := by
  obtain ⟨⟨name, value⟩, -, inside⟩ := List.mem_flatMap.mp member
  rw [attributeSegments] at inside
  split at inside
  · rw [List.mem_singleton.mp inside]
    exact ⟨rfl, rfl⟩
  · split at inside
    · rcases List.mem_pair.mp inside with rfl | rfl <;> exact ⟨rfl, rfl⟩
    · rcases List.mem_pair.mp inside with rfl | rfl <;> exact ⟨rfl, rfl⟩

theorem isStill_propertiesSegments (interpolate : Bool) (properties : Entries Text PropertyValue)
    (segment : Segment ι ω) (member : segment ∈ propertiesSegments interpolate properties) :
    segment.IsStill := by
  obtain ⟨⟨name, value⟩, -, inside⟩ := List.mem_flatMap.mp member
  rcases List.mem_pair.mp inside with rfl | rfl
  · exact ⟨rfl, rfl⟩
  · exact isStill_propertySegment interpolate value

theorem bindingsOf_still (segments : List (Segment ι ω))
    (still : ∀ segment ∈ segments, segment.IsStill) : bindingsOf segments = [] :=
  List.flatMap_eq_nil_iff.mpr fun segment member => (still segment member).1

theorem listenersOf_still (segments : List (Segment ι ω))
    (still : ∀ segment ∈ segments, segment.IsStill) : listenersOf segments = [] :=
  List.flatMap_eq_nil_iff.mpr fun segment member => (still segment member).2

theorem bindingsOf_startSegments (surroundings : Surroundings ι ω) (document : Document)
    (depth : Nat) (id : NodeId) (element : Element) (interpolate : Bool) :
    bindingsOf (startSegments surroundings document depth id element interpolate) =
      (surroundings.metadata.ofNode id).dynamicBindings := by
  have fixed (text : Text) : bindingsOf [(Segment.fixed text : Segment ι ω)] = [] := rfl
  have attributes (entries : Entries Text Text) : bindingsOf
      (attributesSegments interpolate entries : List (Segment ι ω)) = [] :=
    bindingsOf_still _ (isStill_attributesSegments interpolate entries)
  have properties (entries : Entries Text PropertyValue) : bindingsOf
      (propertiesSegments interpolate entries : List (Segment ι ω)) = [] :=
    bindingsOf_still _ (isStill_propertiesSegments interpolate entries)
  simp only [startSegments, bindingsOf_append, fixed, attributes, properties,
    bindingsOf_bindingSegments, bindingsOf_listenerSegments, List.nil_append, List.append_nil]
  rfl

theorem listenersOf_startSegments (surroundings : Surroundings ι ω) (document : Document)
    (depth : Nat) (id : NodeId) (element : Element) (interpolate : Bool) :
    listenersOf (startSegments surroundings document depth id element interpolate) =
      surroundings.listenersAt document id := by
  have fixed (text : Text) : listenersOf [(Segment.fixed text : Segment ι ω)] = [] := rfl
  have attributes (entries : Entries Text Text) : listenersOf
      (attributesSegments interpolate entries : List (Segment ι ω)) = [] :=
    listenersOf_still _ (isStill_attributesSegments interpolate entries)
  have properties (entries : Entries Text PropertyValue) : listenersOf
      (propertiesSegments interpolate entries : List (Segment ι ω)) = [] :=
    listenersOf_still _ (isStill_propertiesSegments interpolate entries)
  simp only [startSegments, listenersOf_append, fixed, attributes, properties,
    listenersOf_bindingSegments, listenersOf_listenerSegments, List.nil_append, List.append_nil]

theorem still_text (surroundings : Surroundings ι ω) (document : Document) (depth : Nat)
    (interpolate : Bool) (content : Text) (segment : Segment ι ω)
    (member : segment ∈ (Stop.text depth interpolate content).segments surroundings document) :
    segment.IsStill := by
  rw [Stop.segments] at member
  split at member
  · rcases List.mem_pair.mp member with rfl | rfl <;> exact ⟨rfl, rfl⟩
  · rcases List.mem_pair.mp member with rfl | rfl <;> exact ⟨rfl, rfl⟩

end TreeTemplate
