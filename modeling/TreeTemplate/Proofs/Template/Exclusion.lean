import TreeTemplate.Proofs.Template.Visiting
import TreeTemplate.Template.Draft

/-!
# Literals and bindings of one name

Under a name of an element stands a literal value, a binding, or neither. In a sequence of calls the
last one for the name decides which, however the calls for other names and other elements are mixed
with them. Changes made past the calls can put a literal beside a binding; a compile that succeeds
removes it from every element below the roots.
-/
set_option autoImplicit false

namespace TreeTemplate

variable {β ι ω : Type}

/-- What a call puts under a name: a literal value, a binding, or neither of the two. -/
inductive Setting (β ι : Type) where
  | literal (value : β)
  | bound (provider : Provider ι)
  | cleared

def Setting.parts : Setting β ι → Option β × Option (Provider ι)
  | .literal value => (some value, none)
  | .bound provider => (none, some provider)
  | .cleared => (none, none)

/-- The attributes or the properties of an element, those with literal values and those that are
bound. -/
@[ext] structure Holding (β ι : Type) where
  literals : Entries Text β
  bindings : SortedMap Text (Provider ι)
  distinct : Entries.Distinct literals

namespace Holding

def under (holding : Holding β ι) (name : Text) : Option β × Option (Provider ι) :=
  (Entries.lookup name holding.literals, holding.bindings.find? name)

/-- The holding with one side of a name set, and the other one dropped. -/
def put (holding : Holding β ι) (name : Text) : Setting β ι → Holding β ι
  | .literal value =>
    ⟨Entries.upsert name value holding.literals, holding.bindings.erase name,
      Entries.distinct_upsert _ _ _ holding.distinct⟩
  | .bound provider =>
    ⟨Entries.erase name holding.literals, holding.bindings.insert name provider,
      Entries.distinct_erase _ _ holding.distinct⟩
  | .cleared =>
    ⟨Entries.erase name holding.literals, holding.bindings.erase name,
      Entries.distinct_erase _ _ holding.distinct⟩

def after (holding : Holding β ι) : Option (Text × Setting β ι) → Holding β ι
  | none => holding
  | some (name, setting) => holding.put name setting

theorem put_same (holding : Holding β ι) (name : Text) (setting : Setting β ι) :
    (holding.put name setting).under name = setting.parts := by
  have erased := Entries.lookup_erase_same name holding.literals holding.distinct
  cases setting with
  | literal value =>
    exact Prod.ext (Entries.lookup_upsert_same name value holding.literals)
      (SortedMap.find?_erase_same holding.bindings name)
  | bound provider =>
    exact Prod.ext erased (SortedMap.find?_insert_same holding.bindings name provider)
  | cleared => exact Prod.ext erased (SortedMap.find?_erase_same holding.bindings name)

theorem put_other (holding : Holding β ι) {name other : Text} (setting : Setting β ι)
    (apart : other ≠ name) : (holding.put name setting).under other = holding.under other := by
  have erased := Entries.lookup_erase_other holding.literals apart
  cases setting with
  | literal value =>
    exact Prod.ext (Entries.lookup_upsert_other value holding.literals apart)
      (SortedMap.find?_erase_other holding.bindings apart)
  | bound provider =>
    exact Prod.ext erased (SortedMap.find?_insert_other holding.bindings _ _ provider apart)
  | cleared => exact Prod.ext erased (SortedMap.find?_erase_other holding.bindings apart)

end Holding

def NodeEdit.attributeSetting? : NodeEdit ι ω → Option (Text × Setting Text ι)
  | .setAttribute name value => some (name, .literal value)
  | .setFlag name true => some (name, .literal [])
  | .setFlag name false => some (name, .cleared)
  | .bindAttribute name provider => some (name, .bound provider)
  | _ => none

def NodeEdit.propertySetting? : NodeEdit ι ω → Option (Text × Setting PropertyValue ι)
  | .setProperty name value => some (name, .literal value)
  | .bindProperty name provider => some (name, .bound provider)
  | _ => none

theorem distinct_attributes (document : Document) (id : NodeId) :
    Entries.Distinct (document.attributes id) := by
  rw [Document.attributes]
  cases document.element? id with
  | none => exact Entries.distinct_nil
  | some element => exact element.distinctAttributes

theorem distinct_properties (document : Document) (id : NodeId) :
    Entries.Distinct (document.properties id) := by
  rw [Document.properties]
  cases document.element? id with
  | none => exact Entries.distinct_nil
  | some element => exact element.distinctProperties

theorem element?_onElement_same (document : Document) (id : NodeId) (change : Element → Element) :
    (document.onElement id change).element? id = (document.element? id).map change := by
  rw [Document.element?, Document.element?, Document.node?_onElement_same]
  cases document.node? id with
  | none => rfl
  | some node => cases node <;> rfl

def Element.attributesWith (element : Element) (own : NodeMetadata ι ω) : Holding Text ι :=
  ⟨element.attributes, own.attributes, element.distinctAttributes⟩

def Element.propertiesWith (element : Element) (own : NodeMetadata ι ω) :
    Holding PropertyValue ι :=
  ⟨element.properties, own.properties, element.distinctProperties⟩

namespace Draft

def attributesAt (draft : Draft ι ω) (id : NodeId) : Holding Text ι where
  literals := draft.document.attributes id
  bindings := (draft.metadata.ofNode id).attributes
  distinct := distinct_attributes draft.document id

def propertiesAt (draft : Draft ι ω) (id : NodeId) : Holding PropertyValue ι where
  literals := draft.document.properties id
  bindings := (draft.metadata.ofNode id).properties
  distinct := distinct_properties draft.document id

theorem attributesAt_of_element {draft : Draft ι ω} {id : NodeId} {element : Element}
    (found : draft.document.element? id = some element) :
    draft.attributesAt id = element.attributesWith (draft.metadata.ofNode id) := by
  refine Holding.ext ?_ rfl
  change draft.document.attributes id = element.attributes
  rw [Document.attributes, found]
  rfl

theorem propertiesAt_of_element {draft : Draft ι ω} {id : NodeId} {element : Element}
    (found : draft.document.element? id = some element) :
    draft.propertiesAt id = element.propertiesWith (draft.metadata.ofNode id) := by
  refine Holding.ext ?_ rfl
  change draft.document.properties id = element.properties
  rw [Document.properties, found]
  rfl

section Congruence
variable {left right : Draft ι ω} {id : NodeId}
  (node : left.document.node? id = right.document.node? id)
  (attached : left.metadata.find? id = right.metadata.find? id)
include node attached

theorem attributesAt_congr : left.attributesAt id = right.attributesAt id := by
  apply Holding.ext
  · change left.document.attributes id = right.document.attributes id
    rw [Document.attributes, Document.attributes, Document.element?, Document.element?, node]
  · change (left.metadata.ofNode id).attributes = (right.metadata.ofNode id).attributes
    rw [Metadata.ofNode, Metadata.ofNode, attached]

theorem propertiesAt_congr : left.propertiesAt id = right.propertiesAt id := by
  apply Holding.ext
  · change left.document.properties id = right.document.properties id
    rw [Document.properties, Document.properties, Document.element?, Document.element?, node]
  · change (left.metadata.ofNode id).properties = (right.metadata.ofNode id).properties
    rw [Metadata.ofNode, Metadata.ofNode, attached]

end Congruence

section Edits
variable (draft : Draft ι ω) (id : NodeId)

/-- An edit leaves the other nodes and what is attached to them alone. -/
theorem edit_other (edit : NodeEdit ι ω) {other : NodeId} (apart : other ≠ id) :
    (draft.edit id edit).2.document.node? other = draft.document.node? other ∧
      (draft.edit id edit).2.metadata.find? other = draft.metadata.find? other := by
  have attached (own : NodeMetadata ι ω) :
      (draft.metadata.insert id own).find? other = draft.metadata.find? other :=
    SortedMap.find?_insert_other draft.metadata id other own apart
  have changed (change : Element → Element) :
      (draft.document.onElement id change).node? other = draft.document.node? other :=
    draft.document.node?_onElement_other (Ne.symm apart) change
  cases edit with
  | interpolate mode => exact ⟨rfl, attached _⟩
  | setAttribute name value => exact ⟨changed _, attached _⟩
  | setFlag name present =>
    cases present with
    | true => exact ⟨changed _, attached _⟩
    | false => exact ⟨changed _, attached _⟩
  | bindAttribute name provider => exact ⟨changed _, attached _⟩
  | setProperty name value => exact ⟨changed _, attached _⟩
  | bindProperty name provider => exact ⟨changed _, attached _⟩
  | listen event listener =>
    rw [Draft.edit]
    cases (draft.metadata.ofNode id).addListener event listener with
    | ok own => exact ⟨rfl, attached own⟩
    | error reason => exact ⟨rfl, attached _⟩

/-- An edit sets what it is about at its element, and drops the other side of it. -/
theorem edit_same {element : Element} (found : draft.document.element? id = some element)
    (edit : NodeEdit ι ω) :
    let own := draft.metadata.ofNode id
    ∃ changed left, (draft.edit id edit).2.document.element? id = some changed ∧
      (draft.edit id edit).2.metadata.ofNode id = left ∧
      changed.attributesWith left = (element.attributesWith own).after edit.attributeSetting? ∧
      changed.propertiesWith left = (element.propertiesWith own).after edit.propertySetting? := by
  have attached (own : NodeMetadata ι ω) :
      Metadata.ofNode (draft.metadata.insert id own) id = own :=
    ofNode_insert_same draft.metadata id own
  have changed (change : Element → Element) :
      (draft.document.onElement id change).element? id = some (change element) := by
    rw [element?_onElement_same, found]
    rfl
  cases edit with
  | interpolate mode => exact ⟨_, _, found, attached _, rfl, rfl⟩
  | setAttribute name value => exact ⟨_, _, changed _, attached _, rfl, rfl⟩
  | setFlag name present =>
    cases present with
    | true => exact ⟨_, _, changed _, attached _, rfl, rfl⟩
    | false => exact ⟨_, _, changed _, attached _, rfl, rfl⟩
  | bindAttribute name provider => exact ⟨_, _, changed _, attached _, rfl, rfl⟩
  | setProperty name value => exact ⟨_, _, changed _, attached _, rfl, rfl⟩
  | bindProperty name provider => exact ⟨_, _, changed _, attached _, rfl, rfl⟩
  | listen event listener =>
    rw [Draft.edit, NodeMetadata.addListener]
    cases (draft.metadata.ofNode id).listeners.has event with
    | true => exact ⟨_, _, found, attached _, rfl, rfl⟩
    | false => exact ⟨_, _, found, attached _, rfl, rfl⟩

theorem isElement_edit (edit : NodeEdit ι ω) (other : NodeId)
    (isElement : (draft.document.element? other).isSome = true) :
    ((draft.edit id edit).2.document.element? other).isSome = true := by
  by_cases same : other = id
  · subst same
    obtain ⟨element, found⟩ := Option.isSome_iff_exists.mp isElement
    obtain ⟨changed, left, isThere, -⟩ := draft.edit_same other found edit
    exact Option.isSome_iff_exists.mpr ⟨changed, isThere⟩
  · rwa [Document.element?, (draft.edit_other id edit same).1, ← Document.element?]

end Edits

def editEach (draft : Draft ι ω) (calls : List (NodeId × NodeEdit ι ω)) : Draft ι ω :=
  calls.foldl (fun current call => (current.edit call.1 call.2).2) draft

theorem editEach_concat (draft : Draft ι ω) (calls : List (NodeId × NodeEdit ι ω)) (id : NodeId)
    (edit : NodeEdit ι ω) :
    draft.editEach (calls ++ [(id, edit)]) = ((draft.editEach calls).edit id edit).2 := by
  rw [editEach, List.foldl_append]
  rfl

theorem isElement_editEach (draft : Draft ι ω) (calls : List (NodeId × NodeEdit ι ω)) (id : NodeId)
    (isElement : (draft.document.element? id).isSome = true) :
    ((draft.editEach calls).document.element? id).isSome = true := by
  induction calls generalizing draft with
  | nil => exact isElement
  | cons call rest ih =>
    exact ih (draft.edit call.1 call.2).2 (draft.isElement_edit call.1 call.2 id isElement)

/-- Calls leave the other nodes and what is attached to them alone. -/
theorem editEach_other (draft : Draft ι ω) (calls : List (NodeId × NodeEdit ι ω)) (id : NodeId)
    (untouched : ∀ call ∈ calls, id ≠ call.1) :
    (draft.editEach calls).document.node? id = draft.document.node? id ∧
      (draft.editEach calls).metadata.find? id = draft.metadata.find? id := by
  induction calls generalizing draft with
  | nil => exact ⟨rfl, rfl⟩
  | cons call rest ih =>
    rw [List.forall_mem_cons] at untouched
    obtain ⟨node, attached⟩ := draft.edit_other call.1 call.2 untouched.1
    obtain ⟨laterNode, laterAttached⟩ := ih (draft.edit call.1 call.2).2 untouched.2
    exact ⟨laterNode.trans node, laterAttached.trans attached⟩

end Draft

def settingsOf (select : NodeEdit ι ω → Option (Text × Setting β ι))
    (calls : List (NodeId × NodeEdit ι ω)) : Entries (NodeId × Text) (Setting β ι) :=
  calls.filterMap fun call => (select call.2).map fun pair => ((call.1, pair.1), pair.2)

structure Follows (select : NodeEdit ι ω → Option (Text × Setting β ι))
    (holdingAt : Draft ι ω → NodeId → Holding β ι) : Prop where
  here : ∀ (draft : Draft ι ω) (id : NodeId) (edit : NodeEdit ι ω),
    (draft.document.element? id).isSome = true →
      holdingAt (draft.edit id edit).2 id = (holdingAt draft id).after (select edit)
  elsewhere : ∀ (draft : Draft ι ω) (id other : NodeId) (edit : NodeEdit ι ω), other ≠ id →
    holdingAt (draft.edit id edit).2 other = holdingAt draft other

/-- The last call about a name of an element decides what stands there; without one, what has stood
there is left. -/
def LastCallDecides (select : NodeEdit ι ω → Option (Text × Setting β ι))
    (holdingAt : Draft ι ω → NodeId → Holding β ι) (start : Draft ι ω)
    (calls : List (NodeId × NodeEdit ι ω)) : Prop :=
  ∀ id name,
    (∀ setting, Entries.IsLast (settingsOf select calls) (id, name) setting →
      (holdingAt (start.editEach calls) id).under name = setting.parts) ∧
    ((id, name) ∉ Entries.keys (settingsOf select calls) →
      (holdingAt (start.editEach calls) id).under name = (holdingAt start id).under name)

theorem Follows.lastCallDecides {select : NodeEdit ι ω → Option (Text × Setting β ι)}
    {holdingAt : Draft ι ω → NodeId → Holding β ι} (follows : Follows select holdingAt)
    (start : Draft ι ω) (calls : List (NodeId × NodeEdit ι ω))
    (elements : ∀ call ∈ calls, (start.document.element? call.1).isSome = true) :
    LastCallDecides select holdingAt start calls := by
  intro id name
  induction calls using List.reverseRecOn with
  | nil =>
    refine ⟨?_, fun _ => rfl⟩
    rintro setting ⟨before, behind, impossible, -⟩
    simp [settingsOf] at impossible
  | append_singleton calls call ih =>
    obtain ⟨target, edit⟩ := call
    rw [List.forall_mem_append, List.forall_mem_singleton] at elements
    obtain ⟨ihSet, ihKept⟩ := ih elements.1
    have here := follows.here (start.editEach calls) target edit
      (start.isElement_editEach calls target elements.2)
    have elsewhere := follows.elsewhere (start.editEach calls) target id edit
    rw [Draft.editEach_concat]
    cases selected : select edit with
    | none =>
      -- The call is not about what is held, neither here nor elsewhere.
      have settings : settingsOf select (calls ++ [(target, edit)]) = settingsOf select calls := by
        simp [settingsOf, selected]
      have kept : holdingAt ((start.editEach calls).edit target edit).2 id =
          holdingAt (start.editEach calls) id := by
        by_cases same : id = target
        · subst same
          rw [here, selected]
          rfl
        · exact elsewhere same
      rw [settings, kept]
      exact ⟨ihSet, ihKept⟩
    | some pair =>
      obtain ⟨own, put⟩ := pair
      have settings : settingsOf select (calls ++ [(target, edit)]) =
          settingsOf select calls ++ [((target, own), put)] := by
        simp [settingsOf, selected]
      have kept (apart : (id, name) ≠ (target, own)) :
          (holdingAt ((start.editEach calls).edit target edit).2 id).under name =
            (holdingAt (start.editEach calls) id).under name := by
        by_cases same : id = target
        · subst same
          rw [here, selected]
          exact Holding.put_other _ put fun isOwn => apart (congrArg (Prod.mk id) isOwn)
        · rw [elsewhere same]
      rw [settings]
      constructor
      · intro setting isLast
        rcases (Entries.isLast_concat ..).mp isLast with ⟨same, rfl⟩ | ⟨apart, isLast⟩
        · obtain ⟨rfl, rfl⟩ := Prod.mk.inj same
          rw [here, selected]
          exact Holding.put_same _ name setting
        · exact (kept apart).trans (ihSet setting isLast)
      · intro absent
        simp only [Entries.keys, List.map_append, List.map_cons, List.map_nil, List.mem_append,
          List.mem_singleton, not_or] at absent
        exact (kept absent.2).trans (ihKept absent.1)

theorem attributesAt_follows :
    @Follows Text ι ω NodeEdit.attributeSetting? Draft.attributesAt where
  here draft id edit isElement := by
    obtain ⟨element, found⟩ := Option.isSome_iff_exists.mp isElement
    obtain ⟨changed, left, isThere, attached, attributes, -⟩ := draft.edit_same id found edit
    rw [Draft.attributesAt_of_element isThere, attached, attributes,
      Draft.attributesAt_of_element found]
  elsewhere draft id other edit apart := by
    obtain ⟨node, attached⟩ := draft.edit_other id edit apart
    rw [Draft.attributesAt_congr node attached]

theorem propertiesAt_follows :
    @Follows PropertyValue ι ω NodeEdit.propertySetting? Draft.propertiesAt where
  here draft id edit isElement := by
    obtain ⟨element, found⟩ := Option.isSome_iff_exists.mp isElement
    obtain ⟨changed, left, isThere, attached, -, properties⟩ := draft.edit_same id found edit
    rw [Draft.propertiesAt_of_element isThere, attached, properties,
      Draft.propertiesAt_of_element found]
  elsewhere draft id other edit apart := by
    obtain ⟨node, attached⟩ := draft.edit_other id edit apart
    rw [Draft.propertiesAt_congr node attached]

/-! ## Compiling -/

structure Document.Excludes (metadata : Metadata ι ω) (document : Document) (id : NodeId) :
    Prop where
  attributes : ∀ name, document.attribute? id name = none ∨
    (metadata.ofNode id).attributes.find? name = none
  properties : ∀ name, document.property? id name = none ∨
    (metadata.ofNode id).properties.find? name = none

theorem lookup_unbound (entries : Entries Text β) (bindings : SortedMap Text (Provider ι))
    (name : Text) :
    Entries.lookup name (entries.filter fun pair => pair.1 ∉ bindings.keys) = none ∨
      bindings.find? name = none := by
  by_cases bound : name ∈ bindings.keys
  · refine Or.inl ((Entries.lookup_eq_none_iff ..).mpr ?_)
    intro member
    obtain ⟨pair, kept, rfl⟩ := List.mem_map.mp member
    exact of_decide_eq_true (List.mem_filter.mp kept).2 bound
  · refine Or.inr ((Entries.lookup_eq_none_iff ..).mpr ?_)
    exact bound

/-- A compile that succeeds has visited every element below the roots, and drops there what is bound
besides. -/
theorem compile_excludes {surroundings : Surroundings ι ω} {document : Document}
    {roots : List NodeId} {named : SortedMap Text (Provider ι)} {compiled : CompiledTemplate ι ω}
    (success : (compile surroundings document roots named).outcome = .ok compiled)
    {root id : NodeId} (isRoot : root ∈ roots)
    (reaches : (compile surroundings document roots named).document.Reaches root id) :
    (compile surroundings document roots named).document.Excludes surroundings.metadata id := by
  have sound : (compile surroundings document roots named).fault? = none := by
    rw [Compilation.fault?, success]
  obtain ⟨occurrences, visited, preorder, visits, loses⟩ :=
    compile_loses surroundings document roots named
      (bounded_of_success surroundings document roots named sound)
  have agrees := agrees_compile surroundings document roots named
  have children : (compile surroundings document roots named).document.children =
      document.children :=
    funext fun id => (agrees.children id).symm
  have member : id ∈ occurrences := by
    unfold Document.Reaches at reaches
    rw [children] at reaches
    exact (preorder.mem_iff id).mpr ⟨root, isRoot, reaches⟩
  rw [sound] at visits
  cases visits
  rcases agrees.node_cases id with ⟨-, missing⟩ | ⟨content, -, isText⟩ | ⟨element, -, found, -, -⟩
  · constructor <;> intro name <;> left
    · simp [Document.attribute?, Document.attributes, Document.element?, missing, Entries.lookup]
    · simp [Document.property?, Document.properties, Document.element?, missing, Entries.lookup]
  · constructor <;> intro name <;> left
    · simp [Document.attribute?, Document.attributes, Document.element?, isText, Node.element?,
        Entries.lookup]
    · simp [Document.property?, Document.properties, Document.element?, isText, Node.element?,
        Entries.lookup]
  · obtain ⟨left, isThere, loses⟩ := loses.visited id member element found
    have isElement : (compile surroundings document roots named).document.element? id = some left := by
      rw [Document.element?, isThere]
      rfl
    constructor <;> intro name
    · rw [Document.attribute?, Document.attributes, isElement, Option.map_some, Option.getD_some,
        loses.attributes]
      exact lookup_unbound element.attributes _ name
    · rw [Document.property?, Document.properties, isElement, Option.map_some, Option.getD_some,
        loses.properties]
      exact lookup_unbound element.properties _ name

/-- After any calls on elements, the last call about a name of an element decides whether there is a
literal value, a binding, or neither of the two; what no call is about is as before. Whatever then
becomes of the document, a compile that succeeds leaves no element below its roots with both. -/
theorem last_call_excludes (start : Draft ι ω) (calls : List (NodeId × NodeEdit ι ω))
    (elements : ∀ call ∈ calls, (start.document.element? call.1).isSome = true) :
    let draft := start.editEach calls
    LastCallDecides NodeEdit.attributeSetting? Draft.attributesAt start calls ∧
      LastCallDecides NodeEdit.propertySetting? Draft.propertiesAt start calls ∧
      (∀ id, (∀ call ∈ calls, id ≠ call.1) →
        draft.document.node? id = start.document.node? id ∧
          draft.metadata.find? id = start.metadata.find? id) ∧
      ∀ (change : Document → Document) (policies : List (ActivationPolicy ι ω))
        (roots : List NodeId) (named : SortedMap Text (Provider ι))
        (compiled : CompiledTemplate ι ω),
        let compiler := Compiler.fresh ⟨draft.metadata, policies⟩ (change draft.document)
        let compilation := (compiler.run roots named).1
        compilation.outcome = .ok compiled →
          ∀ root ∈ roots, ∀ id, compilation.document.Reaches root id →
            compilation.document.Excludes draft.metadata id := by
  intro draft
  refine ⟨attributesAt_follows.lastCallDecides start calls elements,
    propertiesAt_follows.lastCallDecides start calls elements, start.editEach_other calls, ?_⟩
  intro change policies roots named compiled compiler compilation success root isRoot id reaches
  have compiles : (compile ⟨draft.metadata, policies⟩ (change draft.document) roots named).outcome =
      .ok compiled := success
  exact compile_excludes compiles isRoot reaches

def classyCard : Document :=
  (Document.empty.build (.element "div".toList [] []
    [.element "label".toList
      [("title".toList, "plain".toList), ("class".toList, "big".toList)] [] []])).2

/-- Binds the title of the label, sets a flag there and takes it back, and gives the card a hint. -/
def cardCalls : List (NodeId × NodeEdit Json Text) :=
  [(1, .bindAttribute "title".toList (fieldProvider "label".toList)),
    (1, .setFlag "hidden".toList true),
    (0, .setProperty "hint".toList (.bool true)),
    (1, .setFlag "hidden".toList false)]

/-- The title is bound only, the flag is gone, and class and hint are literal. A title that is set
past the calls does not survive a compile. -/
theorem classy_card_excludes :
    let draft := (Draft.ofDocument classyCard).editEach cardCalls
    let changed := draft.document.setAttribute 1 "title".toList "again".toList
    let compilation :=
      ((Compiler.fresh ⟨draft.metadata, []⟩ changed).run [0] SortedMap.empty).1
    (draft.attributesAt 1).under "title".toList = (none, some (fieldProvider "label".toList)) ∧
      (draft.attributesAt 1).under "hidden".toList = (none, none) ∧
      (draft.attributesAt 1).under "class".toList = (some "big".toList, none) ∧
      (draft.propertiesAt 0).under "hint".toList = (some (.bool true), none) ∧
      changed.attribute? 1 "title".toList = some "again".toList ∧
      compilation.outcome.toBool = true ∧ compilation.document.Excludes draft.metadata 1 := by
  intro draft changed compilation
  have elements : ∀ call ∈ cardCalls, (classyCard.element? call.1).isSome = true := by
    decide +kernel
  obtain ⟨attributes, properties, -, compiles⟩ :=
    last_call_excludes (Draft.ofDocument classyCard) cardCalls elements
  have succeeds : compilation.outcome.toBool = true := by
    decide +kernel
  obtain ⟨compiled, success⟩ := exists_ok succeeds
  have reaches : compilation.document.Reaches 0 1 := .single (by decide +kernel)
  refine ⟨(attributes 1 _).1 (.bound _) ⟨[], _, rfl, by decide +kernel⟩,
    (attributes 1 _).1 .cleared ⟨[(_, .bound _), (_, .literal [])], [], rfl, List.not_mem_nil⟩,
    ((attributes 1 _).2 (by decide +kernel)).trans rfl,
    (properties 0 _).1 (.literal _) ⟨[], [], rfl, List.not_mem_nil⟩, by decide +kernel, succeeds, ?_⟩
  exact compiles (fun document => document.setAttribute 1 "title".toList "again".toList) [] [0]
    SortedMap.empty compiled success 0 (List.mem_singleton.mpr rfl) 1 reaches

end TreeTemplate
