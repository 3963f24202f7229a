import TreeTemplate.Document.Blueprint
import TreeTemplate.Proofs.Document.Reachability
import TreeTemplate.Proofs.Template.Faults
import TreeTemplate.Proofs.Template.Naming
import TreeTemplate.Proofs.Template.Stripping

/-!
# What a compile does to its document

A compile visits the identities below its roots in pre-order, up to the first one that it cannot
write. Each element that it visits loses the literals that a binding replaces, and nothing else
changes. What it leaves behind is compiled with the same error or the same properties, and then stays
as it is. The template is the same too, unless a policy misses the literals that are gone.
-/
set_option autoImplicit false

namespace TreeTemplate

variable {ι ω : Type}

/-- The first literal property of an element that is null, unless a binding replaces it. -/
def Element.fault? (metadata : NodeMetadata ι ω) (element : Element) : Option TemplateError :=
  (element.properties.find? fun pair =>
    pair.2.isNull && !metadata.properties.keys.contains pair.1).map
      fun pair => .unsupportedValue pair.1

def Document.fault? (metadata : Metadata ι ω) (document : Document) (id : NodeId) :
    Option TemplateError :=
  match document.node? id with
  | none => some (.unknownNode id)
  | some (.text _) => none
  | some (.element element) => element.fault? (metadata.ofNode id)

theorem writeProperties_withoutBound (metadata : NodeMetadata ι ω) (element : Element)
    (interpolate : Bool) :
    (writeProperties interpolate (element.withoutBound metadata).properties).2 =
      element.fault? metadata := by
  rw [writeProperties_fault, Element.properties_withoutBound, List.find?_filter, Element.fault?]
  congr 2
  funext pair
  simp [Bool.and_comm]

theorem Element.fault?_withoutBound (metadata : NodeMetadata ι ω) (element : Element) :
    (element.withoutBound metadata).fault? metadata = element.fault? metadata := by
  rw [← writeProperties_withoutBound metadata element true,
    ← writeProperties_withoutBound metadata (element.withoutBound metadata) true,
    Element.withoutBound_withoutBound]

/-- What a stop means for a document: the element that is entered, and why the stop is the last. -/
structure Visit where
  entered : List NodeId
  fault : Option TemplateError

def Stop.visits (metadata : Metadata ι ω) : Stop → List Visit
  | .enter _ id element _ _ => [⟨[id], element.fault? (metadata.ofNode id)⟩]
  | .missing id => [⟨[], some (.unknownNode id)⟩]
  | .endless id => [⟨[], some (.endlessNesting id)⟩]
  | _ => []

def Document.visitsAt (metadata : Metadata ι ω) (document : Document) (id : NodeId) : List Visit :=
  match document.node? id with
  | none => [⟨[], some (.unknownNode id)⟩]
  | some (.text _) => []
  | some (.element element) => [⟨[id], element.fault? (metadata.ofNode id)⟩]

def enteredBy : List Visit → List NodeId
  | [] => []
  | ⟨entered, none⟩ :: rest => entered ++ enteredBy rest
  | ⟨entered, some _⟩ :: _ => entered

def Document.dropAll (metadata : Metadata ι ω) (document : Document) (ids : List NodeId) :
    Document :=
  ids.foldl (Document.dropBound metadata) document

section Transcripts
variable (surroundings : Surroundings ι ω)

theorem emit_fault (document : Document) (registry : Registry ι ω) (stop : Stop) :
    (stop.emit surroundings document registry).fault =
      (stop.visits surroundings.metadata).findSome? Visit.fault := by
  cases stop with
  | enter depth id element inherited interpolate =>
    rw [Stop.emit, writeStart_fault, writeProperties_withoutBound]
    simp [Stop.visits]
  | text depth interpolate content => rfl
  | leave depth tag childless => rfl
  | missing id => rfl
  | endless id => rfl

theorem strip_eq_dropAll (metadata : Metadata ι ω) (document : Document) (stop : Stop) :
    stop.strip metadata document =
      document.dropAll metadata ((stop.visits metadata).flatMap Visit.entered) := by
  cases stop <;> rfl

theorem visits_cases (metadata : Metadata ι ω) (stop : Stop) (rest : List Visit) :
    ((stop.visits metadata).findSome? Visit.fault = none ∧
        enteredBy (stop.visits metadata ++ rest) =
          (stop.visits metadata).flatMap Visit.entered ++ enteredBy rest) ∨
      ∃ reason, (stop.visits metadata).findSome? Visit.fault = some reason ∧
        enteredBy (stop.visits metadata ++ rest) = (stop.visits metadata).flatMap Visit.entered := by
  cases stop with
  | enter depth id element inherited interpolate =>
    cases faulty : element.fault? (metadata.ofNode id) with
    | none => exact Or.inl ⟨by simp [Stop.visits, faulty], by simp [Stop.visits, faulty, enteredBy]⟩
    | some reason =>
      exact Or.inr ⟨reason, by simp [Stop.visits, faulty], by simp [Stop.visits, faulty, enteredBy]⟩
  | text depth interpolate content => exact Or.inl ⟨rfl, rfl⟩
  | leave depth tag childless => exact Or.inl ⟨rfl, rfl⟩
  | missing id => exact Or.inr ⟨_, rfl, rfl⟩
  | endless id => exact Or.inr ⟨_, rfl, rfl⟩

theorem transcribe_visits (document : Document) (registry : Registry ι ω) (tour : List Stop) :
    (transcribe surroundings document registry tour).fault =
        (tour.flatMap (Stop.visits surroundings.metadata)).findSome? Visit.fault ∧
      (transcribe surroundings document registry tour).document =
        document.dropAll surroundings.metadata
          (enteredBy (tour.flatMap (Stop.visits surroundings.metadata))) := by
  induction tour generalizing document registry with
  | nil => exact ⟨rfl, rfl⟩
  | cons stop rest ih =>
    have fault := emit_fault surroundings (stop.strip surroundings.metadata document) registry stop
    have strip := strip_eq_dropAll surroundings.metadata document stop
    rw [transcribe, List.flatMap_cons, List.findSome?_append]
    dsimp only
    -- Behind a fault the transcript and the visits both end.
    rcases visits_cases surroundings.metadata stop
        (rest.flatMap (Stop.visits surroundings.metadata)) with
      ⟨sound, entered⟩ | ⟨reason, faulty, entered⟩
    · rw [sound] at fault
      obtain ⟨later, left⟩ := ih (stop.strip surroundings.metadata document)
        (stop.emit surroundings (stop.strip surroundings.metadata document) registry).registry
      rw [fault, sound, entered]
      refine ⟨later, ?_⟩
      dsimp only
      rw [left, strip, Document.dropAll, Document.dropAll, Document.dropAll, List.foldl_append]
    · rw [faulty] at fault
      rw [fault, faulty, entered]
      exact ⟨rfl, strip⟩

end Transcripts

theorem visits_stripped (metadata : Metadata ι ω) (stop : Stop) :
    (stop.stripped metadata).visits metadata = stop.visits metadata := by
  cases stop with
  | enter depth id element inherited interpolate =>
    simp only [Stop.stripped, Stop.visits, Element.fault?_withoutBound]
  | text depth interpolate content => rfl
  | leave depth tag childless => rfl
  | missing id => rfl
  | endless id => rfl

section Walks
variable {metadata : Metadata ι ω} {document : Document}

/-- A tour within its bound makes the visits of the occurrences of the walk. -/
theorem visits_of_bounded_tour {roots occurrences : List NodeId}
    (preorder : document.Preorder roots occurrences) {modes : NodeId → Interpolation}
    (bounded : ∀ stop ∈ document.tour modes roots, stop.IsBounded) :
    (document.tour modes roots).flatMap (Stop.visits metadata) =
      occurrences.flatMap (document.visitsAt metadata) := by
  refine flatMap_bounded_tour preorder _ (document.visitsAt metadata) ?_ ?_ ?_ ?_ _ _ _ bounded
  · intro id missing
    rw [Document.visitsAt, missing]
    rfl
  · intro id content depth interpolate found
    rw [Document.visitsAt, found]
    rfl
  · intro id element depth inherited interpolate found
    rw [Document.visitsAt, found]
    rfl
  · intro depth tag childless
    rfl

theorem findSome?_visitsAt (id : NodeId) :
    (document.visitsAt metadata id).findSome? Visit.fault = document.fault? metadata id := by
  rw [Document.visitsAt, Document.fault?]
  split
  · rfl
  · rfl
  · rename_i element _
    cases element.fault? (metadata.ofNode id) <;> rfl

theorem mem_entered_visitsAt (id other : NodeId) :
    other ∈ (document.visitsAt metadata id).flatMap Visit.entered ↔
      other = id ∧ (document.element? id).isSome = true := by
  rw [Document.visitsAt]
  split <;> rename_i found <;> simp [Document.element?, found, Node.element?]

/-- The visited identities: all of the walk if there is no fault, and otherwise those up to and
including the first one with a fault. -/
inductive Document.Visited (metadata : Metadata ι ω) (document : Document) :
    List NodeId → List NodeId → Option TemplateError → Prop where
  | all {occurrences : List NodeId}
      (sound : ∀ id ∈ occurrences, document.fault? metadata id = none) :
      Visited metadata document occurrences occurrences none
  | upTo {before rest : List NodeId} {failing : NodeId} {reason : TemplateError}
      (sound : ∀ id ∈ before, document.fault? metadata id = none)
      (faulty : document.fault? metadata failing = some reason) :
      Visited metadata document (before ++ failing :: rest) (before ++ [failing]) (some reason)

theorem Document.Visited.cons {occurrences visited : List NodeId} {fault : Option TemplateError}
    (visits : document.Visited metadata occurrences visited fault) {id : NodeId}
    (sound : document.fault? metadata id = none) :
    document.Visited metadata (id :: occurrences) (id :: visited) fault := by
  cases visits with
  | all others => exact .all (List.forall_mem_cons.mpr ⟨sound, others⟩)
  | upTo others faulty =>
    exact .upTo (List.forall_mem_cons.mpr ⟨sound, others⟩) faulty

theorem Document.Visited.eq_of_sound {occurrences visited : List NodeId}
    (visits : document.Visited metadata occurrences visited none) : visited = occurrences := by
  cases visits
  rfl

theorem findSome?_visits (occurrences : List NodeId) :
    (occurrences.flatMap (document.visitsAt metadata)).findSome? Visit.fault =
      occurrences.findSome? (document.fault? metadata) := by
  induction occurrences with
  | nil => rfl
  | cons id rest ih =>
    rw [List.flatMap_cons, List.findSome?_append, findSome?_visitsAt, ih, List.findSome?_cons]
    cases document.fault? metadata id <;> rfl

theorem exists_visited (occurrences : List NodeId) :
    ∃ visited, document.Visited metadata occurrences visited
      (occurrences.findSome? (document.fault? metadata)) := by
  cases found : occurrences.findSome? (document.fault? metadata) with
  | none => exact ⟨occurrences, .all (List.findSome?_eq_none_iff.mp found)⟩
  | some reason =>
    obtain ⟨before, failing, rest, rfl, faulty, sound⟩ := List.findSome?_eq_some_iff.mp found
    exact ⟨before ++ [failing], .upTo sound faulty⟩

theorem enteredBy_append (before : List NodeId) (rest : List Visit)
    (sound : ∀ id ∈ before, document.fault? metadata id = none) :
    enteredBy (before.flatMap (document.visitsAt metadata) ++ rest) =
      (before.flatMap (document.visitsAt metadata)).flatMap Visit.entered ++ enteredBy rest := by
  induction before with
  | nil => rfl
  | cons id later ih =>
    rw [List.forall_mem_cons] at sound
    have first := sound.1
    rw [Document.fault?] at first
    rw [List.flatMap_cons, List.append_assoc, List.flatMap_append, List.append_assoc, ← ih sound.2,
      Document.visitsAt]
    split at first
    · cases first
    · rfl
    · rw [first]
      rfl

theorem mem_enteredBy {occurrences visited : List NodeId} {fault : Option TemplateError}
    (visits : document.Visited metadata occurrences visited fault) (id : NodeId) :
    id ∈ enteredBy (occurrences.flatMap (document.visitsAt metadata)) ↔
      id ∈ visited ∧ (document.element? id).isSome = true := by
  have entered (ids : List NodeId) :
      id ∈ (ids.flatMap (document.visitsAt metadata)).flatMap Visit.entered ↔
        id ∈ ids ∧ (document.element? id).isSome = true := by
    rw [List.flatMap_assoc, List.mem_flatMap]
    simp only [mem_entered_visitsAt]
    constructor
    · rintro ⟨other, member, rfl, isElement⟩
      exact ⟨member, isElement⟩
    · rintro ⟨member, isElement⟩
      exact ⟨id, member, rfl, isElement⟩
  cases visits with
  | all sound =>
    have whole := enteredBy_append occurrences [] sound
    rw [List.append_nil, enteredBy, List.append_nil] at whole
    rw [whole, entered]
  | @upTo before rest failing reason sound faulty =>
    have last : enteredBy (document.visitsAt metadata failing ++
        rest.flatMap (document.visitsAt metadata)) =
          (document.visitsAt metadata failing).flatMap Visit.entered := by
      rw [Document.fault?] at faulty
      rw [Document.visitsAt]
      split at faulty
      · rfl
      · cases faulty
      · rw [faulty]
        rfl
    rw [List.flatMap_append, List.flatMap_cons, enteredBy_append before _ sound, last,
      List.mem_append, entered, mem_entered_visitsAt, List.mem_append, List.mem_singleton]
    constructor
    · rintro (⟨member, isElement⟩ | ⟨rfl, isElement⟩)
      · exact ⟨Or.inl member, isElement⟩
      · exact ⟨Or.inr rfl, isElement⟩
    · rintro ⟨member | rfl, isElement⟩
      · exact Or.inl ⟨member, isElement⟩
      · exact Or.inr ⟨rfl, isElement⟩

end Walks

section Documents
variable {metadata : Metadata ι ω}

theorem size_dropAll (document : Document) (ids : List NodeId) :
    (document.dropAll metadata ids).size = document.size := by
  induction ids generalizing document with
  | nil => rfl
  | cons id rest ih => exact (ih (document.dropBound metadata id)).trans (document.size_onElement id _)

/-- However often an element is visited, it is stripped once. -/
theorem node?_dropAll (document : Document) (ids : List NodeId) (id : NodeId) :
    (document.dropAll metadata ids).node? id =
      if id ∈ ids then (document.node? id).map (Node.stripped metadata id)
      else document.node? id := by
  induction ids generalizing document with
  | nil => rfl
  | cons first rest ih =>
    rw [Document.dropAll, List.foldl_cons, ← Document.dropAll, ih]
    by_cases same : first = id
    · subst same
      have twice :
          (document.node? first).map (Node.stripped metadata first ∘ Node.stripped metadata first) =
            (document.node? first).map (Node.stripped metadata first) := by
        congr 1
        funext node
        exact Node.stripped_stripped metadata first node
      rw [node?_dropBound_same, Option.map_map, twice]
      simp
    · rw [Document.dropBound, Document.node?_onElement_other document same]
      simp [Ne.symm same]

theorem dropAll_dropAll (document : Document) (ids : List NodeId) :
    (document.dropAll metadata ids).dropAll metadata ids = document.dropAll metadata ids := by
  apply Document.ext_node?
  intro id
  rw [node?_dropAll, node?_dropAll]
  split
  · rw [Option.map_map]
    congr 1
    funext node
    exact Node.stripped_stripped metadata id node
  · rfl

structure Element.Loses (metadata : NodeMetadata ι ω) (before after : Element) : Prop where
  tag : after.tag = before.tag
  children : after.children = before.children
  attributes : after.attributes =
    before.attributes.filter fun pair => pair.1 ∉ metadata.attributes.keys
  properties : after.properties =
    before.properties.filter fun pair => pair.1 ∉ metadata.properties.keys

/-- The documents are the same but for what the visited elements have lost. -/
structure Document.Loses (metadata : Metadata ι ω) (visited : List NodeId)
    (before after : Document) : Prop where
  size : after.size = before.size
  unvisited : ∀ id ∉ visited, after.node? id = before.node? id
  texts : ∀ id content, before.node? id = some (.text content) →
    after.node? id = some (.text content)
  visited : ∀ id ∈ visited, ∀ element, before.node? id = some (.element element) →
    ∃ left, after.node? id = some (.element left) ∧ element.Loses (metadata.ofNode id) left

theorem loses_dropAll (document : Document) (visited ids : List NodeId)
    (elements : ∀ id, id ∈ ids ↔ id ∈ visited ∧ (document.element? id).isSome = true) :
    document.Loses metadata visited (document.dropAll metadata ids) where
  size := size_dropAll document ids
  unvisited := by
    intro id outside
    rw [node?_dropAll, if_neg (fun member => outside ((elements id).mp member).1)]
  texts := by
    intro id content found
    rw [node?_dropAll, found]
    split <;> rfl
  visited := by
    intro id member element found
    have isElement : (document.element? id).isSome = true := by
      simp [Document.element?, found, Node.element?]
    refine ⟨element.withoutBound (metadata.ofNode id), ?_, ?_⟩
    · rw [node?_dropAll, if_pos ((elements id).mpr ⟨member, isElement⟩), found]
      rfl
    · exact ⟨rfl, rfl, element.attributes_withoutBound _, element.properties_withoutBound _⟩

end Documents

/-! ## Compiling -/

def CompiledTemplate.properties (compiled : CompiledTemplate ι ω) : SortedMap Text (Provider ι) :=
  compiled.bindings.properties

def Compilation.fault? (compilation : Compilation ι ω) : Option TemplateError :=
  match compilation.outcome with
  | .ok _ => none
  | .error reason => some reason

section Compiles
variable (surroundings : Surroundings ι ω) (document : Document) (roots : List NodeId)
  (named : SortedMap Text (Provider ι))

theorem compile_visits :
    let visits := (document.tour surroundings.metadata.interpolation roots).flatMap
      (Stop.visits surroundings.metadata)
    (compile surroundings document roots named).fault? = visits.findSome? Visit.fault ∧
      (compile surroundings document roots named).document =
        document.dropAll surroundings.metadata (enteredBy visits) := by
  obtain ⟨fault, left⟩ := transcribe_visits surroundings document (Registry.ofNamed named)
    (document.tour surroundings.metadata.interpolation roots)
  rw [compile]
  dsimp only
  rw [← fault, ← left]
  split
  · rename_i reason faulty
    exact ⟨faulty.symm, rfl⟩
  · rename_i sound
    exact ⟨sound.symm, rfl⟩

/-- Agreeing documents are visited in the same way. -/
theorem visits_agrees {left right : Document} (agrees : left.Agrees surroundings.metadata right) :
    (left.tour surroundings.metadata.interpolation roots).flatMap
        (Stop.visits surroundings.metadata) =
      (right.tour surroundings.metadata.interpolation roots).flatMap
        (Stop.visits surroundings.metadata) := by
  -- Both tours are the same once stripped, and stripping a stop does not change its visits.
  have tours := congrArg (List.flatMap (Stop.visits surroundings.metadata))
    (tour_stripped agrees surroundings.metadata.interpolation roots)
  simpa only [List.flatMap_map, visits_stripped] using tours

theorem entered_stripped (metadata : Metadata ι ω) (stop : Stop) :
    (stop.stripped metadata).entered = stop.entered := by
  cases stop <;> rfl

/-- Agreeing documents have the same dynamic bindings, in the same order. -/
theorem bindingsOf_skeleton_agrees {left right : Document}
    (agrees : left.Agrees surroundings.metadata right) :
    bindingsOf (skeleton surroundings left (left.tour surroundings.metadata.interpolation roots)) =
      bindingsOf
        (skeleton surroundings right (right.tour surroundings.metadata.interpolation roots)) := by
  have tours := congrArg (List.flatMap Stop.entered)
    (tour_stripped agrees surroundings.metadata.interpolation roots)
  simp only [List.flatMap_map, entered_stripped] at tours
  rw [bindingsOf_skeleton, bindingsOf_skeleton, tours]

/-- The document that a compile leaves is visited in the same way, and loses nothing more. -/
theorem document_compile_again :
    let left := (compile surroundings document roots named).document
    (compile surroundings left roots named).document = left := by
  intro left
  have visits := visits_agrees surroundings roots (agrees_compile surroundings document roots named)
  obtain ⟨-, firstLeft⟩ := compile_visits surroundings document roots named
  obtain ⟨-, secondLeft⟩ := compile_visits surroundings left roots named
  rw [← visits] at secondLeft
  have same : left = document.dropAll surroundings.metadata (enteredBy
      ((document.tour surroundings.metadata.interpolation roots).flatMap
        (Stop.visits surroundings.metadata))) := firstLeft
  rw [secondLeft, same, dropAll_dropAll]

/-- Whatever the policies are, agreeing documents fail for the same reason or not at all. -/
theorem compile_fault?_agrees {left right : Document}
    (agrees : left.Agrees surroundings.metadata right) :
    (compile surroundings left roots named).fault? =
      (compile surroundings right roots named).fault? := by
  obtain ⟨leftFault, -⟩ := compile_visits surroundings left roots named
  obtain ⟨rightFault, -⟩ := compile_visits surroundings right roots named
  rw [leftFault, rightFault, visits_agrees surroundings roots agrees]

/-- Whatever the policies are, agreeing documents fail for the same reason or bind the same
properties: a policy adds functions only. -/
theorem compile_properties_agrees {left right : Document}
    (agrees : left.Agrees surroundings.metadata right) :
    (compile surroundings left roots named).outcome.map CompiledTemplate.properties =
      (compile surroundings right roots named).outcome.map CompiledTemplate.properties := by
  have faults := compile_fault?_agrees surroundings roots named agrees
  rw [Compilation.fault?, Compilation.fault?] at faults
  cases leftOutcome : (compile surroundings left roots named).outcome with
  | error reason =>
    cases rightOutcome : (compile surroundings right roots named).outcome with
    | ok compiled =>
      rw [leftOutcome, rightOutcome] at faults
      cases faults
    | error other =>
      rw [leftOutcome, rightOutcome] at faults
      exact congrArg Except.error (Option.some.inj faults)
  | ok first =>
    cases rightOutcome : (compile surroundings right roots named).outcome with
    | error reason =>
      rw [leftOutcome, rightOutcome] at faults
      cases faults
    | ok second =>
      obtain ⟨-, -, leftRegistry, leftBindings, leftRecords⟩ := compile_eq_ok leftOutcome
      obtain ⟨-, -, rightRegistry, rightBindings, rightRecords⟩ := compile_eq_ok rightOutcome
      rw [bindingsOf_skeleton_agrees surroundings roots agrees] at leftRecords
      refine congrArg Except.ok (SortedMap.ext_find? fun name => Option.ext fun provider => ?_)
      rw [CompiledTemplate.properties, CompiledTemplate.properties, leftBindings, rightBindings,
        Registry.finish, Registry.finish, leftRecords.find?_property_iff,
        rightRecords.find?_property_iff]

/-- A compile fails for the first fault among the occurrences of its walk. -/
theorem compile_fault?_eq (acyclic : document.AcyclicBelow roots) {occurrences : List NodeId}
    (preorder : document.Preorder roots occurrences) :
    (compile surroundings document roots named).fault? =
      occurrences.findSome? (document.fault? surroundings.metadata) := by
  have bounded := document.bounded_tour acyclic surroundings.metadata.interpolation
  obtain ⟨fault, -⟩ := compile_visits surroundings document roots named
  rw [visits_of_bounded_tour preorder bounded, findSome?_visits] at fault
  exact fault

/-- A compile that succeeds has made its whole tour, and nothing in it was nested without end. -/
theorem bounded_of_success (success : (compile surroundings document roots named).fault? = none) :
    ∀ stop ∈ document.tour surroundings.metadata.interpolation roots, stop.IsBounded := by
  obtain ⟨fault, -⟩ := compile_visits surroundings document roots named
  rw [success, eq_comm, List.findSome?_eq_none_iff] at fault
  intro stop member
  cases stop with
  | endless id =>
    cases fault _ (List.mem_flatMap.mpr ⟨.endless id, member, List.mem_singleton.mpr rfl⟩)
  | _ => trivial

theorem compile_loses
    (bounded : ∀ stop ∈ document.tour surroundings.metadata.interpolation roots, stop.IsBounded) :
    let first := compile surroundings document roots named
    ∃ occurrences visited, document.Preorder roots occurrences ∧
      document.Visited surroundings.metadata occurrences visited first.fault? ∧
      document.Loses surroundings.metadata visited first.document := by
  intro first
  obtain ⟨occurrences, preorder⟩ := preorder_of_bounded_tour _ _ _ _ bounded
  obtain ⟨visited, visits⟩ : ∃ visited, document.Visited surroundings.metadata occurrences visited
      (occurrences.findSome? (document.fault? surroundings.metadata)) :=
    exists_visited occurrences
  obtain ⟨fault, left⟩ := compile_visits surroundings document roots named
  rw [visits_of_bounded_tour preorder bounded] at fault left
  rw [findSome?_visits] at fault
  rw [← fault] at visits
  refine ⟨occurrences, visited, preorder, visits, ?_⟩
  rw [show first.document = _ from left]
  exact loses_dropAll document visited _ (mem_enteredBy visits)

end Compiles

/-- A first compile strips the elements that it visits and nothing else, whether it succeeds or
fails. A fresh compiler fails for the same reason with what is left, or binds the same properties,
and leaves it as it is. The template and the functions are the same if no policy looks at the literals
that a binding replaces. The compiler that was used is spent. -/
theorem Compiler.run_settles (surroundings : Surroundings ι ω) (document : Document)
    (roots : List NodeId) (named : SortedMap Text (Provider ι))
    (acyclic : document.AcyclicBelow roots) :
    let first := (fresh surroundings document).run roots named
    let again := (fresh surroundings first.1.document).run roots named
    (∃ occurrences visited, document.Preorder roots occurrences ∧
        document.Visited surroundings.metadata occurrences visited first.1.fault? ∧
        document.Loses surroundings.metadata visited first.1.document ∧
        (first.1.fault? = none →
          ∀ root ∈ roots, ∀ id, document.Reaches root id → id ∈ visited)) ∧
      again.1.fault? = first.1.fault? ∧
      again.1.outcome.map CompiledTemplate.properties =
        first.1.outcome.map CompiledTemplate.properties ∧
      again.1.document = first.1.document ∧
      (surroundings.IgnoresBound → again.1.outcome = first.1.outcome) ∧
      ∀ others names, first.2.run others names =
        (⟨.error .alreadyCompiled, first.1.document, []⟩, first.2) := by
  intro first again
  obtain ⟨occurrences, visited, preorder, visits, loses⟩ :=
    compile_loses surroundings document roots named
      (document.bounded_tour acyclic surroundings.metadata.interpolation)
  have agrees := agrees_compile surroundings document roots named
  have fault := compile_fault?_agrees surroundings roots named agrees
  have properties := compile_properties_agrees surroundings roots named agrees
  have left := document_compile_again surroundings document roots named
  refine ⟨⟨occurrences, visited, preorder, visits, loses, ?_⟩, fault.symm, properties.symm, left, ?_,
    ?_⟩
  · intro succeeds root isRoot id reaches
    have member := (preorder.mem_iff id).mpr ⟨root, isRoot, reaches⟩
    have sound : (compile surroundings document roots named).fault? = none := succeeds
    rw [sound] at visits
    cases visits
    exact member
  · intro ignores
    exact (compile_agrees ignores agrees roots named).symm
  · intro others names
    rfl

/-- A card that shows one label before and after a button, and another label at its end. -/
def labelledCard : Document :=
  let label : Blueprint :=
    .element "label".toList [("title".toList, "plain".toList), ("class".toList, "big".toList)] [] []
  let button : Blueprint := .element "button".toList [] [("hint".toList, .json .null)] []
  let (card, document) := Document.empty.build (.element "div".toList [] [] [label, button])
  (document.appendChild card 1).buildChildren card [label]

def labelTitles : Surroundings Json Text where
  metadata :=
    let title : NodeMetadata Json Text := { NodeMetadata.bare with
      attributes := SortedMap.empty.insert "title".toList (fieldProvider "label".toList) }
    (SortedMap.empty.insert 1 title).insert 3 title
  policies := [.forTag "label".toList "tap".toList fun _ _ => "tapped".toList]

/-- The compile gets stuck at the button, so that the label at the end keeps its title. -/
theorem labelled_card_settles :
    let first := (Compiler.fresh labelTitles labelledCard).run [0] SortedMap.empty
    let again := (Compiler.fresh labelTitles first.1.document).run [0] SortedMap.empty
    labelledCard.AcyclicBelow [0] ∧ labelTitles.IgnoresBound ∧
      first.1.fault? = some (.unsupportedValue "hint".toList) ∧
      first.1.document.attributes 1 = [("class".toList, "big".toList)] ∧
      first.1.document.attributes 3 =
        [("title".toList, "plain".toList), ("class".toList, "big".toList)] ∧
      again.1.outcome = first.1.outcome ∧ again.1.document = first.1.document := by
  intro first again
  have forward : ∀ parent < labelledCard.size, ∀ child ∈ labelledCard.children parent,
      parent < child := by
    decide +kernel
  have acyclic := Document.acyclicBelow_of_forward [0] forward
  have ignores : labelTitles.IgnoresBound := by
    intro policy member
    rw [List.mem_singleton.mp member]
    exact forTag_ignoresBound _ _ _ _
  obtain ⟨-, -, -, left, same, -⟩ :=
    Compiler.run_settles labelTitles labelledCard [0] SortedMap.empty acyclic
  refine ⟨acyclic, ignores, ?_, ?_, ?_, same ignores, left⟩ <;> decide +kernel

def titledPanel : Document :=
  (Document.empty.build (.element "div".toList [] []
    [.element "label".toList [("title".toList, "plain".toList)] [] []])).2

/-- Applies to the panel as long as the label has a literal title. -/
def peekingPolicy : ActivationPolicy Json Text where
  event := "tap".toList
  appliesTo document id := id = 0 && (document.attribute? 1 "title".toList).isSome
  listener _ := ⟨fun _ _ => "tapped".toList, none⟩

def peekedTitle : Surroundings Json Text where
  metadata := SortedMap.empty.insert 1 { NodeMetadata.bare with
    attributes := SortedMap.empty.insert "title".toList (fieldProvider "label".toList) }
  policies := [peekingPolicy]

theorem titledPanel_acyclicBelow : titledPanel.AcyclicBelow [0] :=
  Document.acyclicBelow_of_forward [0] (by decide +kernel)

/-- The panel is written before the label has lost its title, and again afterwards: only the first
template listens for taps. -/
theorem peeking_policy_unsettled :
    let first := (Compiler.fresh peekedTitle titledPanel).run [0] SortedMap.empty
    let again := (Compiler.fresh peekedTitle first.1.document).run [0] SortedMap.empty
    titledPanel.AcyclicBelow [0] ∧ first.1.fault? = none ∧
      again.1.outcome.map CompiledTemplate.template ≠
        first.1.outcome.map CompiledTemplate.template := by
  intro first again
  have apart : (again.1.outcome.map CompiledTemplate.template).toOption ≠
      (first.1.outcome.map CompiledTemplate.template).toOption := by
    decide +kernel
  exact ⟨titledPanel_acyclicBelow, by decide +kernel, mt (congrArg Except.toOption) apart⟩

end TreeTemplate
