import TreeTemplate.Binding.Registry
import TreeTemplate.Template.Encoding
import TreeTemplate.Template.Policy
import TreeTemplate.Template.Tour

/-!
# Writing the stops of a tour

What each stop of a tour adds to a template: its text, the names it takes from the registry, and the
records it makes. Within an element the order is: dynamic attributes, literal attributes, dynamic
properties, literal properties, listeners. An element that is entered loses the literals that a
binding replaces; the policies see the document without them.
-/
set_option autoImplicit false

namespace TreeTemplate

variable {ι ω : Type}

def padding (depth : Nat) : Text :=
  '\n' :: List.replicate (2 * (depth + 1)) ' '

/-- The element without the literal attributes and properties that a binding replaces. -/
def Element.withoutBound (metadata : NodeMetadata ι ω) (element : Element) : Element :=
  { element with
    attributes := Entries.eraseAll metadata.attributes.keys element.attributes
    properties := Entries.eraseAll metadata.properties.keys element.properties
    distinctAttributes := Entries.distinct_eraseAll _ _ element.distinctAttributes
    distinctProperties := Entries.distinct_eraseAll _ _ element.distinctProperties }

/-- The document in which an element has lost the literals that a binding replaces. -/
def Document.dropBound (metadata : Metadata ι ω) (document : Document) (id : NodeId) : Document :=
  document.onElement id (Element.withoutBound (metadata.ofNode id))

/-! ## The parts of an element -/

def itemReference (binding : Text) : Text :=
  placeholder ("item.".toList ++ binding)

/-- Binds each provider to a fresh property and writes its name and the reference to the property,
each name after a space and the given mark. -/
def writeBindings (mark : Text) :
    Entries Text (Provider ι) → Registry ι ω → Text × Registry ι ω
  | [], registry => ([], registry)
  | (name, provider) :: rest, registry =>
    let (binding, extended) := registry.addProperty provider
    let (later, complete) := writeBindings mark rest extended
    (' ' :: mark ++ name ++ '=' :: itemReference binding ++ later, complete)

/-- A literal attribute. An empty value is left out together with its equals sign. -/
def writeAttribute (interpolate : Bool) (name value : Text) : Encoded :=
  if value.isEmpty then .silent (' ' :: name)
  else
    let encoded := encodeAttributeValue interpolate value
    { encoded with text := ' ' :: name ++ '=' :: encoded.text }

def writeAttributes (interpolate : Bool) : Entries Text Text → Encoded
  | [] => .silent []
  | (name, value) :: rest =>
    let first := writeAttribute interpolate name value
    let later := writeAttributes interpolate rest
    ⟨first.text ++ later.text, first.records ++ later.records⟩

/-- The literal properties in their order, and the error of the first one that cannot be expressed,
where writing stops. -/
def writeProperties (interpolate : Bool) :
    Entries Text PropertyValue → Encoded × Option TemplateError
  | [] => (.silent [], none)
  | (name, value) :: rest =>
    match encodeProperty interpolate name value with
    | .error reason => (.silent [], some reason)
    | .ok encoded =>
      let (later, fault) := writeProperties interpolate rest
      (⟨' ' :: '.' :: name ++ '=' :: encoded.text ++ later.text, encoded.records ++ later.records⟩,
        fault)

/-- The function literal that forwards an event, with the arguments of the listener if it has any. -/
def listenerText (function : Text) (arguments : Option (List Text)) : Text :=
  match arguments with
  | none => "()=>".toList ++ function ++ "()".toList
  | some expressions =>
    "(event)=>".toList ++ function ++ '(' :: List.intercalate ", ".toList expressions ++ [')']

/-- Binds each handler to a fresh function and writes its event and the call of the function. -/
def writeListeners :
    Entries Text (Listener ι ω) → Registry ι ω → Text × Registry ι ω
  | [], registry => ([], registry)
  | (event, listener) :: rest, registry =>
    let (function, extended) := registry.addFunction listener.handler
    let (later, complete) := writeListeners rest extended
    (' ' :: '@' :: event ++ '=' :: placeholder (listenerText function listener.arguments) ++ later,
      complete)

/-! ## Stops -/

/-- What a stop adds to a template. A stop with a fault is the last one. -/
structure Emission (ι ω : Type) where
  text : Text
  registry : Registry ι ω
  records : List LogRecord
  fault : Option TemplateError

/-- What the compiler knows besides the document. -/
structure Surroundings (ι ω : Type) where
  metadata : Metadata ι ω
  policies : List (ActivationPolicy ι ω)

/-- The listeners that the policies give to an element, besides those of the caller. -/
def Surroundings.synthesized (surroundings : Surroundings ι ω) (document : Document) (id : NodeId) :
    Entries Text (Listener ι ω) :=
  ActivationPolicy.synthesize document id surroundings.policies
    (surroundings.metadata.ofNode id).listeners.keys

/-- The start tag of an element. The policies are asked about the given document. -/
def writeStart (surroundings : Surroundings ι ω) (document : Document) (registry : Registry ι ω)
    (depth : Nat) (id : NodeId) (element : Element) (inherited interpolate : Bool) :
    Emission ι ω :=
  let metadata := surroundings.metadata.ofNode id
  let bare := element.withoutBound metadata
  let modeRecords := if interpolate = inherited then []
    else [.modeChanged element.tag id interpolate]
  let (dynamicAttributes, afterAttributes) := writeBindings [] metadata.attributes.entries registry
  let attributes := writeAttributes interpolate bare.attributes
  let (dynamicProperties, afterProperties) :=
    writeBindings ['.'] metadata.properties.entries afterAttributes
  let (properties, fault) := writeProperties interpolate bare.properties
  let written := modeRecords ++ attributes.records ++ properties.records
  match fault with
  | some reason => ⟨[], afterProperties, written, some reason⟩
  | none =>
    let added := surroundings.synthesized document id
    let (listeners, complete) := writeListeners (metadata.listeners.entries ++ added) afterProperties
    { text := padding depth ++ '<' :: element.tag ++ dynamicAttributes ++ attributes.text ++
        dynamicProperties ++ properties.text ++ listeners ++ ['>']
      registry := complete
      records := written ++ added.map fun listener => .synthesized id listener.1
      fault := none }

/-- What a stop adds, in the document that it leaves. -/
def Stop.emit (surroundings : Surroundings ι ω) (document : Document) (registry : Registry ι ω) :
    Stop → Emission ι ω
  | .text depth interpolate content =>
    ⟨padding depth ++ encodeText interpolate content, registry, [], none⟩
  | .enter depth id element inherited interpolate =>
    writeStart surroundings document registry depth id element inherited interpolate
  | .leave depth tag childless =>
    let closing := '<' :: '/' :: tag ++ ['>']
    ⟨if childless then closing else padding depth ++ closing, registry, [], none⟩
  | .missing id => ⟨[], registry, [], some (.unknownNode id)⟩
  | .endless id => ⟨[], registry, [], some (.endlessNesting id)⟩

/-- The document that a stop leaves. -/
def Stop.strip (metadata : Metadata ι ω) (document : Document) : Stop → Document
  | .enter _ id _ _ _ => document.dropBound metadata id
  | _ => document

/-- What a tour comes to, up to its end or its first fault. -/
structure Transcript (ι ω : Type) where
  text : Text
  registry : Registry ι ω
  records : List LogRecord
  document : Document
  fault : Option TemplateError

def transcribe (surroundings : Surroundings ι ω) (document : Document) (registry : Registry ι ω) :
    List Stop → Transcript ι ω
  | [] => ⟨[], registry, [], document, none⟩
  | stop :: rest =>
    let stripped := stop.strip surroundings.metadata document
    let emission := stop.emit surroundings stripped registry
    match emission.fault with
    | some reason => ⟨emission.text, emission.registry, emission.records, stripped, some reason⟩
    | none =>
      let later := transcribe surroundings stripped emission.registry rest
      { text := emission.text ++ later.text
        registry := later.registry
        records := emission.records ++ later.records
        document := later.document
        fault := later.fault }

end TreeTemplate
