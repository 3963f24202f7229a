import TreeTemplate.Proofs.Document.Walk
import TreeTemplate.Proofs.Template.Faults
import TreeTemplate.Proofs.Template.Skeleton

/-!
# Filling in the names

What a compile without a fault writes is the numbered skeleton of its tour, and its registry records
the bindings and listeners of the skeleton. `Fills` says this of any part of a template; parts that
follow one another compose.
-/
set_option autoImplicit false

namespace TreeTemplate

variable {ι ω : Type}

/-- From a registry that records some providers and handlers, the text is the segments numbered from
there on, and the other registry records those of the segments too. -/
def Fills (named : SortedMap Text (Provider ι)) (before : Registry ι ω)
    (segments : List (Segment ι ω)) (text : Text) (after : Registry ι ω) : Prop :=
  ∀ providers handlers, Registry.Records named providers handlers before →
    text = numbered named providers.length handlers.length segments ∧
      Registry.Records named (providers ++ (bindingsOf segments).map DynamicBinding.provider)
        (handlers ++ (listenersOf segments).map fun pair => pair.2.handler) after

section Fills
variable {named : SortedMap Text (Provider ι)}

theorem Fills.none (registry : Registry ι ω) : Fills named registry [] [] registry := by
  intro providers handlers records
  exact ⟨rfl, by simpa [bindingsOf, listenersOf] using records⟩

theorem Fills.append {before middle after : Registry ι ω} {left right : List (Segment ι ω)}
    {leftText rightText : Text} (first : Fills named before left leftText middle)
    (second : Fills named middle right rightText after) :
    Fills named before (left ++ right) (leftText ++ rightText) after := by
  intro providers handlers records
  obtain ⟨leftExact, leftRecords⟩ := first providers handlers records
  obtain ⟨rightExact, rightRecords⟩ := second _ _ leftRecords
  constructor
  · rw [leftExact, rightExact, numbered_append]
    simp only [List.length_append, List.length_map]
  · rw [bindingsOf_append, listenersOf_append, List.map_append, List.map_append,
      ← List.append_assoc, ← List.append_assoc]
    exact rightRecords

variable (named) in
/-- A segment that takes no name is written in the same way everywhere. -/
theorem Fills.still (registry : Registry ι ω) (segment : Segment ι ω) (isStill : segment.IsStill) :
    Fills named registry [segment] (segment.written named 0 0) registry := by
  intro providers handlers records
  obtain ⟨noBindings, noListeners⟩ := isStill
  constructor
  · cases segment with
    | binding own => cases noBindings
    | listener event own => cases noListeners
    | fixed text => simp [numbered, Segment.written]
    | constant expression => simp [numbered, Segment.written]
    | literal content => simp [numbered, Segment.written]
  · simpa [bindingsOf, listenersOf, noBindings, noListeners] using records

variable (named) in
theorem Fills.fixed (registry : Registry ι ω) (text : Text) :
    Fills named registry [.fixed text] text registry :=
  Fills.still named registry (.fixed text) ⟨rfl, rfl⟩

variable (named) in
theorem fills_binding (registry : Registry ι ω) (mark name : Text) (provider : Provider ι) :
    Fills named registry [.binding ⟨mark, name, provider⟩]
      (' ' :: mark ++ name ++ '=' :: itemReference (registry.addProperty provider).1)
      (registry.addProperty provider).2 := by
  intro providers handlers records
  constructor
  · rw [records.addProperty_name provider]
    simp [numbered, Segment.written]
  · have extended := records.addProperty provider
    simpa [bindingsOf, listenersOf, Segment.bindings, Segment.listeners] using extended

variable (named) in
theorem fills_listener (registry : Registry ι ω) (event : Text) (listener : Listener ι ω) :
    Fills named registry [.listener event listener]
      (' ' :: '@' :: event ++
        '=' :: placeholder (listenerText (registry.addFunction listener.handler).1 listener.arguments))
      (registry.addFunction listener.handler).2 := by
  intro providers handlers records
  constructor
  · rw [records.addFunction_name listener.handler]
    simp [numbered, Segment.written]
  · have extended := records.addFunction listener.handler
    simpa [bindingsOf, listenersOf, Segment.bindings, Segment.listeners] using extended

variable (named) in
theorem fills_writeBindings (mark : Text) (entries : Entries Text (Provider ι))
    (registry : Registry ι ω) :
    Fills named registry (bindingSegments mark entries)
      (writeBindings mark entries registry).1 (writeBindings mark entries registry).2 := by
  induction entries generalizing registry with
  | nil => exact Fills.none registry
  | cons head rest ih =>
    obtain ⟨name, provider⟩ := head
    have first := fills_binding named registry mark name provider
    have whole := first.append (ih (registry.addProperty provider).2)
    simpa [writeBindings, bindingSegments] using whole

variable (named) in
theorem fills_writeListeners (listeners : Entries Text (Listener ι ω)) (registry : Registry ι ω) :
    Fills named registry (listenerSegments listeners)
      (writeListeners listeners registry).1 (writeListeners listeners registry).2 := by
  induction listeners generalizing registry with
  | nil => exact Fills.none registry
  | cons head rest ih =>
    obtain ⟨event, listener⟩ := head
    have first := fills_listener named registry event listener
    have whole := first.append (ih (registry.addFunction listener.handler).2)
    simpa [writeListeners, listenerSegments] using whole

variable (named) in
theorem fills_writeAttribute (interpolate : Bool) (name value : Text) (registry : Registry ι ω) :
    Fills named registry (attributeSegments interpolate name value)
      (writeAttribute interpolate name value).text registry := by
  rw [attributeSegments, writeAttribute]
  split
  · exact Fills.fixed named registry _
  · have equals := Fills.fixed named registry (' ' :: name ++ ['='])
    cases interpolate with
    | false =>
      have whole := equals.append (Fills.still named registry (.literal value) ⟨rfl, rfl⟩)
      simpa [encodeAttributeValue, Segment.written, Encoded.silent] using whole
    | true =>
      have whole := equals.append (Fills.fixed named registry (encodeInterpolatedValue value).text)
      simpa [encodeAttributeValue] using whole

variable (named) in
theorem fills_writeAttributes (interpolate : Bool) (attributes : Entries Text Text)
    (registry : Registry ι ω) :
    Fills named registry (attributesSegments interpolate attributes)
      (writeAttributes interpolate attributes).text registry := by
  induction attributes with
  | nil => exact Fills.none registry
  | cons head rest ih =>
    obtain ⟨name, value⟩ := head
    exact (fills_writeAttribute named interpolate name value registry).append ih

/-- A property value that can be expressed is written as its segment. -/
theorem written_propertySegment (named : SortedMap Text (Provider ι)) {interpolate : Bool}
    {name : Text} {value : PropertyValue} {encoded : Encoded}
    (expressed : encodeProperty interpolate name value = .ok encoded) :
    (propertySegment interpolate value : Segment ι ω).written named 0 0 = encoded.text := by
  have isString (content : Text) :
      (propertySegment.stringSegment interpolate content : Segment ι ω).written named 0 0 =
        (encodeStringProperty interpolate content).text := by
    cases interpolate <;> rfl
  cases value with
  | bool flag =>
    obtain rfl := Except.ok.inj expressed
    rfl
  | number quantity =>
    obtain rfl := Except.ok.inj expressed
    rfl
  | string content =>
    obtain rfl := Except.ok.inj expressed
    exact isString content
  | json json =>
    cases json with
    | null => cases expressed
    | string content =>
      obtain rfl := Except.ok.inj expressed
      exact isString content
    | _ =>
      obtain rfl := Except.ok.inj expressed
      rfl

variable (named) in
theorem fills_writeProperties (interpolate : Bool) (properties : Entries Text PropertyValue)
    (registry : Registry ι ω) (complete : (writeProperties interpolate properties).2 = .none) :
    Fills named registry (propertiesSegments interpolate properties)
      (writeProperties interpolate properties).1.text registry := by
  induction properties with
  | nil => exact Fills.none registry
  | cons head rest ih =>
    obtain ⟨name, value⟩ := head
    cases expressed : encodeProperty interpolate name value with
    | error reason => simp [writeProperties, expressed] at complete
    | ok encoded =>
      simp only [writeProperties, expressed] at complete ⊢
      have equals := Fills.fixed named registry (' ' :: '.' :: name ++ ['='])
      have written := Fills.still named registry (propertySegment interpolate value)
        (isStill_propertySegment interpolate value)
      rw [written_propertySegment named expressed] at written
      have whole := (equals.append written).append (ih complete)
      simpa [propertiesSegments] using whole

theorem fills_writeStart (surroundings : Surroundings ι ω) (document : Document)
    (registry : Registry ι ω) (depth : Nat) (id : NodeId) (element : Element)
    (inherited interpolate : Bool)
    (complete : (writeStart surroundings document registry depth id element inherited
      interpolate).fault = .none) :
    Fills named registry (startSegments surroundings document depth id element interpolate)
      (writeStart surroundings document registry depth id element inherited interpolate).text
      (writeStart surroundings document registry depth id element inherited
        interpolate).registry := by
  rw [writeStart_fault] at complete
  let metadata := surroundings.metadata.ofNode id
  let bare := element.withoutBound metadata
  let attributes := writeBindings [] metadata.attributes.entries registry
  let properties := writeBindings ['.'] metadata.properties.entries attributes.2
  let listeners := writeListeners (surroundings.listenersAt document id) properties.2
  have opening := Fills.fixed named registry (padding depth ++ '<' :: element.tag)
  have dynamicAttributes := fills_writeBindings named [] metadata.attributes.entries registry
  have literalAttributes := fills_writeAttributes named interpolate bare.attributes attributes.2
  have dynamicProperties := fills_writeBindings named ['.'] metadata.properties.entries attributes.2
  have literalProperties :=
    fills_writeProperties named interpolate bare.properties properties.2 complete
  have calls := fills_writeListeners named (surroundings.listenersAt document id) properties.2
  have closing := Fills.fixed named listeners.2 ['>']
  have whole := (((((opening.append dynamicAttributes).append literalAttributes).append
    dynamicProperties).append literalProperties).append calls).append closing
  rw [writeStart]
  dsimp only
  rw [complete]
  exact whole

variable (named) in
theorem fills_text (surroundings : Surroundings ι ω) (document : Document)
    (registry : Registry ι ω) (depth : Nat) (interpolate : Bool) (content : Text) :
    Fills named registry ((Stop.text depth interpolate content).segments surroundings document)
      (padding depth ++ encodeText interpolate content) registry := by
  have indented := Fills.fixed named registry (padding depth)
  rw [Stop.segments, encodeText, looksLikeCode]
  cases interpolate with
  | true => exact indented.append (Fills.fixed named registry (encodeCharacterData content))
  | false =>
    cases Text.occurs placeholderOpening content with
    | true => exact indented.append (Fills.still named registry (.literal content) ⟨rfl, rfl⟩)
    | false =>
      cases content.contains '\x60' with
      | true => exact indented.append (Fills.still named registry (.literal content) ⟨rfl, rfl⟩)
      | false => exact indented.append (Fills.fixed named registry (encodeCharacterData content))

variable (named) in
theorem fills_emit (surroundings : Surroundings ι ω) (document : Document)
    (registry : Registry ι ω) (stop : Stop)
    (complete : (stop.emit surroundings document registry).fault = .none) :
    stop.IsSound ∧
      Fills named registry (stop.segments surroundings document)
        (stop.emit surroundings document registry).text
        (stop.emit surroundings document registry).registry := by
  cases stop with
  | text depth interpolate content =>
    exact ⟨trivial, fills_text named surroundings document registry depth interpolate content⟩
  | enter depth id element inherited interpolate =>
    exact ⟨trivial, fills_writeStart surroundings document registry depth id element inherited
      interpolate complete⟩
  | leave depth tag childless => exact ⟨trivial, Fills.fixed named registry _⟩
  | missing id => cases complete
  | endless id => cases complete

/-- A transcript without a fault fills in the skeleton of its tour, which has no dead end. -/
theorem fills_transcribe (surroundings : Surroundings ι ω) (named : SortedMap Text (Provider ι))
    (document : Document) (registry : Registry ι ω) (tour : List Stop)
    (complete : (transcribe surroundings document registry tour).fault = .none) :
    (∀ stop ∈ tour, stop.IsSound) ∧
      Fills named registry (skeleton surroundings document tour)
        (transcribe surroundings document registry tour).text
        (transcribe surroundings document registry tour).registry := by
  induction tour generalizing document registry with
  | nil => exact ⟨by simp, Fills.none registry⟩
  | cons stop rest ih =>
    let stripped := stop.strip surroundings.metadata document
    cases faulty : (stop.emit surroundings stripped registry).fault with
    | some reason => simp [transcribe, faulty, stripped] at complete
    | none =>
      obtain ⟨sound, first⟩ := fills_emit named surroundings stripped registry stop faulty
      simp only [transcribe, faulty, stripped] at complete ⊢
      obtain ⟨soundLater, later⟩ :=
        ih stripped (stop.emit surroundings stripped registry).registry complete
      exact ⟨List.forall_mem_cons.mpr ⟨sound, soundLater⟩, first.append later⟩

end Fills

/-- The template of a compile is the numbered skeleton of its tour and a line break; its bindings
are the caller's and those of the skeleton. -/
theorem compile_eq_ok {surroundings : Surroundings ι ω} {document : Document} {roots : List NodeId}
    {named : SortedMap Text (Provider ι)} {compiled : CompiledTemplate ι ω}
    (success : (compile surroundings document roots named).outcome = .ok compiled) :
    let tour := document.tour surroundings.metadata.interpolation roots
    let segments := skeleton surroundings document tour
    (∀ stop ∈ tour, stop.IsSound) ∧
      compiled.template = numbered named 0 0 segments ++ ['\n'] ∧
      ∃ registry, compiled.bindings = registry.finish ∧
        Registry.Records named ((bindingsOf segments).map DynamicBinding.provider)
          ((listenersOf segments).map fun pair => pair.2.handler) registry := by
  rw [compile] at success
  dsimp only at success
  split at success
  · cases success
  · rename_i complete
    obtain ⟨sound, fills⟩ :=
      fills_transcribe surroundings named document (Registry.ofNamed named) _ complete
    obtain ⟨text, records⟩ := fills [] [] (Registry.records_ofNamed named)
    obtain rfl := Except.ok.inj success
    exact ⟨sound, congrArg (· ++ ['\n']) text, _, rfl, records⟩

end TreeTemplate
