import TreeTemplate.Document.Blueprint
import TreeTemplate.Proofs.Template.Numbering

/-!
# The names of a compiled template

The dynamic bindings and the listeners of the elements at and below the roots, in pre-order, are
numbered in this order: the placeholder of each is written with its own number, and the bindings
hold its own provider or handler under the name with this number, beside what the caller has named.
-/
set_option autoImplicit false

namespace TreeTemplate

variable {ι ω : Type}

def Surroundings.bindingsAlong (surroundings : Surroundings ι ω) (elements : List NodeId) :
    List (DynamicBinding ι) :=
  elements.flatMap fun id => (surroundings.metadata.ofNode id).dynamicBindings

/-- The listeners of the elements, in order. The policies are asked about the document in which the
elements so far have lost the literals that a binding replaces. -/
def Surroundings.listenersAlong (surroundings : Surroundings ι ω) (document : Document) :
    List NodeId → Entries Text (Listener ι ω)
  | [] => []
  | id :: rest =>
    let stripped := document.dropBound surroundings.metadata id
    surroundings.listenersAt stripped id ++ surroundings.listenersAlong stripped rest

def IsBound (named : SortedMap Text (Provider ι)) (bindings : List (DynamicBinding ι))
    (name : Text) (provider : Provider ι) : Prop :=
  named.find? name = some provider ∨
    ∃ place binding, bindings[place]? = some binding ∧ name = syntheticName named place ∧
      provider = binding.provider

def IsCalled (listeners : Entries Text (Listener ι ω)) (name : Text) (handler : Handler ι ω) :
    Prop :=
  ∃ place event listener, listeners[place]? = some (event, listener) ∧ name = functionName place ∧
    handler = listener.handler

theorem bindingsOf_skeleton (surroundings : Surroundings ι ω) (document : Document)
    (tour : List Stop) :
    bindingsOf (skeleton surroundings document tour) =
      surroundings.bindingsAlong (tour.flatMap Stop.entered) := by
  induction tour generalizing document with
  | nil => rfl
  | cons stop rest ih =>
    rw [skeleton, bindingsOf_append, ih, Surroundings.bindingsAlong, Surroundings.bindingsAlong,
      List.flatMap_cons, List.flatMap_append]
    congr 1
    cases stop with
    | enter depth id element inherited interpolate =>
      rw [Stop.segments, bindingsOf_startSegments]
      simp [Stop.entered]
    | text depth interpolate content =>
      exact bindingsOf_still _ (still_text surroundings document depth interpolate content)
    | leave depth tag childless => rfl
    | missing id => rfl
    | endless id => rfl

theorem listenersOf_skeleton (surroundings : Surroundings ι ω) (document : Document)
    (tour : List Stop) :
    listenersOf (skeleton surroundings document tour) =
      surroundings.listenersAlong document (tour.flatMap Stop.entered) := by
  induction tour generalizing document with
  | nil => rfl
  | cons stop rest ih =>
    rw [skeleton, listenersOf_append, ih, List.flatMap_cons]
    cases stop with
    | enter depth id element inherited interpolate =>
      rw [Stop.segments, listenersOf_startSegments]
      rfl
    | text depth interpolate content =>
      have still := listenersOf_still _
        (still_text surroundings document depth interpolate content)
      exact congrArg (· ++ surroundings.listenersAlong document (rest.flatMap Stop.entered)) still
    | leave depth tag childless => rfl
    | missing id => rfl
    | endless id => rfl

section Meaning
variable {named : SortedMap Text (Provider ι)} {segments : List (Segment ι ω)}
  {registry : Registry ι ω}

theorem find?_property_iff_isBound
    (records : Registry.Records named ((bindingsOf segments).map DynamicBinding.provider)
      ((listenersOf segments).map fun pair => pair.2.handler) registry)
    (name : Text) (provider : Provider ι) :
    registry.properties.find? name = some provider ↔
      IsBound named (bindingsOf segments) name provider := by
  rw [records.find?_property_iff, IsBound]
  simp only [List.getElem?_map, Option.map_eq_some_iff]
  constructor
  · rintro (isNamed | ⟨place, ⟨binding, isBinding, rfl⟩, same⟩)
    · exact Or.inl isNamed
    · exact Or.inr ⟨place, binding, isBinding, same, rfl⟩
  · rintro (isNamed | ⟨place, binding, isBinding, same, rfl⟩)
    · exact Or.inl isNamed
    · exact Or.inr ⟨place, ⟨binding, isBinding, rfl⟩, same⟩

theorem find?_function_iff_isCalled
    (records : Registry.Records named ((bindingsOf segments).map DynamicBinding.provider)
      ((listenersOf segments).map fun pair => pair.2.handler) registry)
    (name : Text) (handler : Handler ι ω) :
    registry.functions.find? name = some handler ↔
      IsCalled (listenersOf segments) name handler := by
  rw [records.find?_function_iff, IsCalled]
  simp only [List.getElem?_map, Option.map_eq_some_iff]
  constructor
  · rintro ⟨place, ⟨⟨event, listener⟩, isListener, rfl⟩, same⟩
    exact ⟨place, event, listener, isListener, same, rfl⟩
  · rintro ⟨place, event, listener, isListener, same, rfl⟩
    exact ⟨place, ⟨(event, listener), isListener, rfl⟩, same⟩

end Meaning

/-- In a compiled template stands the start tag of every element at or below a root. -/
theorem startSegments_infix {surroundings : Surroundings ι ω} {document : Document}
    {roots : List NodeId} {named : SortedMap Text (Provider ι)} {compiled : CompiledTemplate ι ω}
    (success : (compile surroundings document roots named).outcome = .ok compiled)
    {root id : NodeId} {element : Element} (isRoot : root ∈ roots)
    (reaches : document.Reaches root id) (found : document.node? id = some (.element element)) :
    ∃ current depth interpolate, startSegments surroundings current depth id element interpolate <:+:
      skeleton surroundings document
        (document.tour surroundings.metadata.interpolation roots) := by
  obtain ⟨sound, -⟩ := compile_eq_ok success
  have bounded := fun stop member => (sound stop member).isBounded
  obtain ⟨occurrences, preorder⟩ := preorder_of_bounded_tour _ _ _ roots bounded
  have member := (preorder.mem_iff id).mpr ⟨root, isRoot, reaches⟩
  obtain ⟨depth, above, interpolate, isStop⟩ :=
    enters_of_bounded_tour preorder _ _ _ bounded member found
  obtain ⟨before, behind, shape⟩ := List.append_of_mem isStop
  rw [Document.tour, shape, skeleton_append, skeleton, ← List.append_assoc]
  exact ⟨_, depth, interpolate, _, _, rfl⟩

end TreeTemplate
