import TreeTemplate.Proofs.Document.Changes

/-!
# Documents and their history

Whatever is asked of a document, in whatever order and of whatever identities, what it holds can be
read off the history. A node keeps its identity, its kind and its tag or text. Its attributes and its
properties are those that were set and not removed since, each with the value set last, in the order
in which their names came to stand there; its children are those that were appended. What is addressed
to a text or to an identity without a node changes nothing.
-/
set_option autoImplicit false

namespace TreeTemplate

inductive NodeKind where
  | element (tag : Text)
  | text (content : Text)
  deriving DecidableEq

def Node.kind : Node → NodeKind
  | .element content => .element content.tag
  | .text content => .text content

def NodeKind.bare : NodeKind → Node
  | .element tag => .element ⟨tag, [], [], [], Entries.distinct_nil, Entries.distinct_nil⟩
  | .text content => .text content

/-- Something that happens to one node. A value that is set is given, and none for one that is
removed. -/
inductive DocumentEvent where
  | created (kind : NodeKind)
  | appended (parent child : NodeId)
  | changedAttribute (id : NodeId) (name : Text) (value : Option Text)
  | changedProperty (id : NodeId) (name : Text) (value : Option PropertyValue)

namespace DocumentEvent

def creation? : DocumentEvent → Option NodeKind
  | created kind => some kind
  | _ => none

def target? : DocumentEvent → Option NodeId
  | created _ => none
  | appended parent _ => some parent
  | changedAttribute id _ _ => some id
  | changedProperty id _ _ => some id

def childOf? (id : NodeId) : DocumentEvent → Option NodeId
  | appended parent child => if parent = id then some child else none
  | _ => none

def attributeOf? (id : NodeId) : DocumentEvent → Option (Text × Option Text)
  | changedAttribute target name value => if target = id then some (name, value) else none
  | _ => none

def propertyOf? (id : NodeId) : DocumentEvent → Option (Text × Option PropertyValue)
  | changedProperty target name value => if target = id then some (name, value) else none
  | _ => none

def onElement (event : DocumentEvent) (element : Element) : Element :=
  match event with
  | created _ => element
  | appended _ child => { element with children := element.children ++ [child] }
  | changedAttribute _ name value =>
    { element with
      attributes := Entries.change element.attributes name value
      distinctAttributes := Entries.distinct_change element.distinctAttributes name value }
  | changedProperty _ name value =>
    { element with
      properties := Entries.change element.properties name value
      distinctProperties := Entries.distinct_change element.distinctProperties name value }

end DocumentEvent

structure Element.Records (id : NodeId) (since : List DocumentEvent) (element : Element) : Prop where
  children : element.children = since.filterMap (DocumentEvent.childOf? id)
  attributes : ∀ entries, Entries.Remains (since.filterMap (DocumentEvent.attributeOf? id)) entries ↔
    entries = element.attributes
  properties : ∀ entries, Entries.Remains (since.filterMap (DocumentEvent.propertyOf? id)) entries ↔
    entries = element.properties

inductive Node.Records (id : NodeId) (since : List DocumentEvent) : NodeKind → Node → Prop where
  | element {content : Element} (records : content.Records id since) :
      Records id since (.element content.tag) (.element content)
  | text {content : Text} : Records id since (.text content) (.text content)

theorem Node.Records.exists_element {id : NodeId} {since : List DocumentEvent} {tag : Text}
    {node : Node} (records : node.Records id since (.element tag)) :
    ∃ element, node = .element element ∧ element.tag = tag ∧ element.Records id since := by
  cases records with
  | element records => exact ⟨_, rfl, rfl, records⟩

/-- A document holds one node for each creation among the events, in their order, and what each of
them has become. -/
structure Document.Records (events : List DocumentEvent) (document : Document) : Prop where
  size : document.size = (events.filterMap DocumentEvent.creation?).length
  nodes : ∀ before kind since, events = before ++ .created kind :: since →
    let id := (before.filterMap DocumentEvent.creation?).length
    ∃ node, document.node? id = some node ∧ node.Records id since kind

section Elements
variable {id : NodeId} {since : List DocumentEvent} {element : Element} {event : DocumentEvent}

/-- An element records an event if it has made the changes that the event means for it. -/
theorem Element.Records.step (records : element.Records id since) {changed : Element}
    (children : changed.children = element.children ++ (event.childOf? id).toList)
    (attributes : changed.attributes = Entries.after element.attributes (event.attributeOf? id))
    (properties : changed.properties = Entries.after element.properties (event.propertyOf? id)) :
    changed.Records id (since ++ [event]) := by
  have extended {α : Type} (read : DocumentEvent → Option α) :
      (since ++ [event]).filterMap read = since.filterMap read ++ (read event).toList := by
    rw [List.filterMap_append, List.filterMap_cons]
    cases read event <;> rfl
  refine ⟨?_, ?_, ?_⟩
  · rw [children, extended, records.children]
  · rw [attributes, extended]
    exact (((records.attributes _).mpr rfl).after _).iff_eq
  · rw [properties, extended]
    exact (((records.properties _).mpr rfl).after _).iff_eq

theorem Element.Records.elsewhere (records : element.Records id since)
    (elsewhere : event.target? ≠ some id) : element.Records id (since ++ [event]) := by
  have apart {target : NodeId} (own : event.target? = some target) : target ≠ id := by
    rintro rfl
    exact elsewhere own
  have nothing : event.childOf? id = none ∧ event.attributeOf? id = none ∧
      event.propertyOf? id = none := by
    cases event with
    | created kind => exact ⟨rfl, rfl, rfl⟩
    | appended parent child => exact ⟨if_neg (apart rfl), rfl, rfl⟩
    | changedAttribute target name value => exact ⟨rfl, if_neg (apart rfl), rfl⟩
    | changedProperty target name value => exact ⟨rfl, rfl, if_neg (apart rfl)⟩
  obtain ⟨noChild, noAttribute, noProperty⟩ := nothing
  refine records.step ?_ ?_ ?_
  · rw [noChild, Option.toList_none, List.append_nil]
  · rw [noAttribute, Entries.after]
  · rw [noProperty, Entries.after]

theorem Element.Records.here (records : element.Records id since)
    (addressed : event.target? = some id) :
    (event.onElement element).Records id (since ++ [event]) := by
  cases event with
  | created kind => cases addressed
  | appended parent child =>
    have isChild : (DocumentEvent.appended parent child).childOf? id = some child :=
      if_pos (Option.some.inj addressed)
    exact records.step (by rw [isChild]; rfl) rfl rfl
  | changedAttribute target name value =>
    have isChange : (DocumentEvent.changedAttribute target name value).attributeOf? id =
        some (name, value) := if_pos (Option.some.inj addressed)
    exact records.step (List.append_nil _).symm (by rw [isChange]; rfl) rfl
  | changedProperty target name value =>
    have isChange : (DocumentEvent.changedProperty target name value).propertyOf? id =
        some (name, value) := if_pos (Option.some.inj addressed)
    exact records.step (List.append_nil _).symm rfl (by rw [isChange]; rfl)

theorem records_bare (id : NodeId) (kind : NodeKind) : kind.bare.Records id [] kind := by
  cases kind with
  | element tag =>
    have empty : Element.Records id []
        ⟨tag, [], [], [], Entries.distinct_nil, Entries.distinct_nil⟩ :=
      ⟨rfl, Entries.remains_nil.iff_eq, Entries.remains_nil.iff_eq⟩
    exact .element empty
  | text content => exact .text

/-- What a node becomes by an event. -/
theorem Node.Records.step {kind : NodeKind} {node : Node} (records : node.Records id since kind) :
    (if event.target? = some id then node.onElement event.onElement else node).Records id
      (since ++ [event]) kind := by
  cases records with
  | @element content records =>
    split
    · rename_i addressed
      have tag : (event.onElement content).tag = content.tag := by
        cases event <;> rfl
      rw [← tag]
      exact .element (records.here addressed)
    · rename_i elsewhere
      exact .element (records.elsewhere elsewhere)
  | text =>
    split
    · exact .text
    · exact .text

end Elements

namespace Document

def create (document : Document) : NodeKind → Document
  | .element tag => (document.createElement tag).2
  | .text content => (document.createText content).2

def undergo (document : Document) : DocumentEvent → Document
  | .created kind => document.create kind
  | .appended parent child => document.appendChild parent child
  | .changedAttribute id name (some value) => document.setAttribute id name value
  | .changedAttribute id name none => document.removeAttribute id name
  | .changedProperty id name (some value) => document.setProperty id name value
  | .changedProperty id name none => document.removeProperty id name

def undergoAll (document : Document) (events : List DocumentEvent) : Document :=
  events.foldl undergo document

variable {document : Document}

theorem undergo_addressed {event : DocumentEvent} {id : NodeId}
    (addressed : event.target? = some id) :
    document.undergo event = document.onElement id event.onElement := by
  cases event with
  | created kind => cases addressed
  | appended parent child =>
    obtain rfl := Option.some.inj addressed
    rfl
  | changedAttribute target name value =>
    obtain rfl := Option.some.inj addressed
    cases value <;> rfl
  | changedProperty target name value =>
    obtain rfl := Option.some.inj addressed
    cases value <;> rfl

/-- What is addressed to something other than an element changes nothing. -/
theorem undergo_of_not_element {event : DocumentEvent} {id : NodeId}
    (addressed : event.target? = some id) (noElement : document.element? id = none) :
    document.undergo event = document := by
  rw [undergo_addressed addressed]
  refine document.onElement_eq_self ?_
  intro node found
  cases node with
  | text content => rfl
  | element element => simp [element?, found, Node.element?] at noElement

theorem create_eq_addNode (kind : NodeKind) :
    document.create kind = (document.addNode kind.bare).2 := by
  cases kind <;> rfl

theorem size_undergo (event : DocumentEvent) :
    (document.undergo event).size = document.size + event.creation?.toList.length := by
  cases addressed : event.target? with
  | some id =>
    have nothing : event.creation? = none := by
      cases event with
      | created kind => cases addressed
      | _ => rfl
    rw [undergo_addressed addressed, size_onElement, nothing]
    rfl
  | none =>
    cases event with
    | created kind =>
      rw [undergo, create_eq_addNode, size_addNode]
      rfl
    | _ => cases addressed

theorem node?_undergo (event : DocumentEvent) {id : NodeId} (isOld : id < document.size) :
    (document.undergo event).node? id = (document.node? id).map fun node =>
      if event.target? = some id then node.onElement event.onElement else node := by
  cases addressed : event.target? with
  | some target =>
    rw [undergo_addressed addressed]
    by_cases same : target = id
    · subst same
      rw [node?_onElement_same]
      simp
    · rw [node?_onElement_other document same]
      simp [same]
  | none =>
    cases event with
    | created kind =>
      rw [undergo, create_eq_addNode, node?_addNode_old document _ isOld]
      simp
    | _ => cases addressed

theorem records_nil : Document.empty.Records [] := by
  refine ⟨rfl, ?_⟩
  intro before kind since impossible
  simp at impossible

/-- A document that records its history records what it undergoes next. -/
theorem Records.undergo {events : List DocumentEvent} (records : document.Records events)
    (event : DocumentEvent) : (document.undergo event).Records (events ++ [event]) := by
  have extended : (events ++ [event]).filterMap DocumentEvent.creation? =
      events.filterMap DocumentEvent.creation? ++ event.creation?.toList := by
    rw [List.filterMap_append, List.filterMap_cons]
    cases event.creation? <;> rfl
  constructor
  · rw [size_undergo, extended, List.length_append, records.size]
  · intro before kind since shape
    rcases List.eq_nil_or_concat' since with rfl | ⟨front, last, rfl⟩
    · -- The event itself is the creation, and the node is the one that it adds.
      obtain ⟨rfl, isEvent⟩ := List.append_inj' shape rfl
      rw [List.singleton_inj.mp isEvent, ← records.size, Document.undergo, create_eq_addNode]
      exact ⟨_, node?_addNode_new document kind.bare, records_bare _ kind⟩
    · have parted : events ++ [event] = (before ++ .created kind :: front) ++ [last] := by
        simp [shape]
      obtain ⟨rfl, isLast⟩ := List.append_inj' parted rfl
      obtain rfl := List.singleton_inj.mp isLast
      obtain ⟨node, found, recorded⟩ := records.nodes before kind front rfl
      have isOld : (before.filterMap DocumentEvent.creation?).length < document.size := by
        rw [records.size, List.filterMap_append, List.length_append]
        simp [DocumentEvent.creation?]
      refine ⟨_, ?_, recorded.step⟩
      rw [node?_undergo event isOld, found]
      rfl

theorem records_undergoAll (events : List DocumentEvent) :
    (Document.empty.undergoAll events).Records events := by
  induction events using List.reverseRecOn with
  | nil => exact records_nil
  | append_singleton events event ih =>
    rw [undergoAll, List.foldl_append]
    exact ih.undergo event

end Document

/-! ## Calls -/

inductive DocumentQuery where
  | size
  | isEmpty
  | hasNode (id : NodeId)
  | isText (id : NodeId)
  | text (id : NodeId)
  | tag (id : NodeId)
  | children (id : NodeId)
  | attributeNames (id : NodeId)
  | attribute (id : NodeId) (name : Text)
  | propertyNames (id : NodeId)
  | property (id : NodeId) (name : Text)
  | contains (ancestor target : NodeId)

inductive DocumentCall where
  | createElement (tag : Text)
  | createText (content : Text)
  | build (tree : Blueprint)
  | appendChild (parent child : NodeId)
  | setAttribute (id : NodeId) (name value : Text)
  | setFlag (id : NodeId) (name : Text) (present : Bool)
  | removeAttribute (id : NodeId) (name : Text)
  | setProperty (id : NodeId) (name : Text) (value : PropertyValue)
  | removeProperty (id : NodeId) (name : Text)
  | ask (query : DocumentQuery)

inductive DocumentReply where
  | done
  | created (id : NodeId)
  | count (value : Nat)
  | flag (value : Bool)
  | text (value : Option Text)
  | property (value : Option PropertyValue)
  | identities (ids : List NodeId)
  | names (names : List Text)

namespace Document

def answer (document : Document) : DocumentQuery → DocumentReply
  | .size => .count document.size
  | .isEmpty => .flag document.nodes.isEmpty
  | .hasNode id => .flag (document.hasNode id)
  | .isText id => .flag (document.isText id)
  | .text id => .text (document.text? id)
  | .tag id => .text (document.tag? id)
  | .children id => .identities (document.children id)
  | .attributeNames id => .names (Entries.keys (document.attributes id))
  | .attribute id name => .text (document.attribute? id name)
  | .propertyNames id => .names (Entries.keys (document.properties id))
  | .property id name => .property (document.property? id name)
  | .contains ancestor target => .flag (document.contains ancestor target)

def respond (document : Document) : DocumentCall → DocumentReply × Document
  | .createElement tag => (document.createElement tag).map .created id
  | .createText content => (document.createText content).map .created id
  | .build tree => (document.build tree).map .created id
  | .appendChild parent child => (.done, document.appendChild parent child)
  | .setAttribute id name value => (.done, document.setAttribute id name value)
  | .setFlag id name present => (.done, document.setFlag id name present)
  | .removeAttribute id name =>
    (.text (document.attribute? id name), document.removeAttribute id name)
  | .setProperty id name value => (.done, document.setProperty id name value)
  | .removeProperty id name =>
    (.property (document.property? id name), document.removeProperty id name)
  | .ask query => (document.answer query, document)

def respondAll (document : Document) (calls : List DocumentCall) : Document :=
  calls.foldl (fun current call => (current.respond call).2) document

end Document

def filling (id : NodeId) (tag : Text) (attributes : Entries Text Text)
    (properties : Entries Text PropertyValue) : List DocumentEvent :=
  .created (.element tag) ::
    (attributes.map (fun pair => .changedAttribute id pair.1 (some pair.2)) ++
      properties.map fun pair => .changedProperty id pair.1 (some pair.2))

mutual

def Blueprint.events (next : NodeId) : Blueprint → List DocumentEvent
  | .text content => [.created (.text content)]
  | .element tag attributes properties children =>
    filling next tag attributes properties ++ childEvents next (next + 1) children

def Blueprint.childEvents (parent next : NodeId) : List Blueprint → List DocumentEvent
  | [] => []
  | child :: rest =>
    child.events next ++ .appended parent next :: childEvents parent (next + child.size) rest

end

namespace DocumentCall

def target? : DocumentCall → Option NodeId
  | appendChild parent _ => some parent
  | setAttribute id _ _ => some id
  | setFlag id _ _ => some id
  | removeAttribute id _ => some id
  | setProperty id _ _ => some id
  | removeProperty id _ => some id
  | _ => none

/-- What happens by a call, where the next node that is created gets the given identity. -/
def events (next : NodeId) : DocumentCall → List DocumentEvent
  | createElement tag => [.created (.element tag)]
  | createText content => [.created (.text content)]
  | build tree => tree.events next
  | appendChild parent child => [.appended parent child]
  | setAttribute id name value => [.changedAttribute id name (some value)]
  | setFlag id name present => [.changedAttribute id name (if present then some [] else none)]
  | removeAttribute id name => [.changedAttribute id name none]
  | setProperty id name value => [.changedProperty id name (some value)]
  | removeProperty id name => [.changedProperty id name none]
  | ask _ => []

end DocumentCall

def history (next : NodeId) : List DocumentCall → List DocumentEvent
  | [] => []
  | call :: rest =>
    let own := call.events next
    own ++ history (next + (own.filterMap DocumentEvent.creation?).length) rest

namespace Document
variable {document : Document}

theorem undergoAll_cons (event : DocumentEvent) (rest : List DocumentEvent) :
    document.undergoAll (event :: rest) = (document.undergo event).undergoAll rest :=
  rfl

theorem undergoAll_append (first second : List DocumentEvent) :
    document.undergoAll (first ++ second) = (document.undergoAll first).undergoAll second :=
  List.foldl_append

theorem size_undergoAll (events : List DocumentEvent) :
    (document.undergoAll events).size =
      document.size + (events.filterMap DocumentEvent.creation?).length := by
  induction events generalizing document with
  | nil => rfl
  | cons event rest ih =>
    rw [undergoAll_cons, ih, size_undergo, List.filterMap_cons]
    cases event.creation? with
    | none => rfl
    | some kind =>
      rw [List.length_cons, Option.toList_some, List.length_singleton]
      omega

theorem createFilled_undergoes (document : Document) (tag : Text) (attributes : Entries Text Text)
    (properties : Entries Text PropertyValue) :
    document.createFilled tag attributes properties =
      (document.size, document.undergoAll (filling document.size tag attributes properties)) := by
  simp only [filling, undergoAll, List.foldl_cons, List.foldl_append, List.foldl_map]
  rfl

mutual

/-- Building a tree makes what happens then happen, and answers the first new identity. -/
theorem build_undergoes (tree : Blueprint) (document : Document) :
    document.build tree = (document.size, document.undergoAll (tree.events document.size)) := by
  cases tree with
  | text content => rfl
  | element tag attributes properties children =>
    have filled := document.createFilled_undergoes tag attributes properties
    have size := congrArg (fun created => created.2.size) filled
    dsimp only at size
    rw [createFilled_eq, size_addNode] at size
    rw [build, filled, Blueprint.events, undergoAll_append]
    exact congrArg (Prod.mk document.size) (buildChildren_undergoes children _ _ size.symm)

theorem buildChildren_undergoes (forest : List Blueprint) (document : Document) (parent : NodeId)
    {next : NodeId} (size : document.size = next) :
    document.buildChildren parent forest =
      document.undergoAll (Blueprint.childEvents parent next forest) := by
  subst size
  cases forest with
  | nil => rfl
  | cons child rest =>
    have size := (document.build_materializes child).size
    rw [buildChildren, Blueprint.childEvents, undergoAll_append, undergoAll_cons]
    rw [build_undergoes child document] at size ⊢
    refine buildChildren_undergoes rest _ parent ?_
    rw [appendChild, size_onElement]
    exact size

end

/-- A call makes what happens by it happen. -/
theorem respond_undergoes (call : DocumentCall) :
    (document.respond call).2 = document.undergoAll (call.events document.size) := by
  cases call with
  | build tree => exact congrArg Prod.snd (build_undergoes tree document)
  | setFlag id name present => cases present <;> rfl
  | _ => rfl

theorem respondAll_undergoes (calls : List DocumentCall) {next : NodeId}
    (size : document.size = next) :
    document.respondAll calls = document.undergoAll (history next calls) := by
  subst size
  induction calls generalizing document with
  | nil => rfl
  | cons call rest ih =>
    have later : (document.respond call).2.respondAll rest = _ := ih
    rw [respondAll, List.foldl_cons, ← respondAll, later, history, undergoAll_append,
      ← respond_undergoes, ← size_undergoAll, ← respond_undergoes]

/-- What happens later leaves the identity of a node and its kind as they are. -/
theorem kind_undergoAll (events : List DocumentEvent) {id : NodeId} {node : Node}
    (found : document.node? id = some node) :
    ∃ kept, (document.undergoAll events).node? id = some kept ∧ kept.kind = node.kind := by
  induction events generalizing document node with
  | nil => exact ⟨node, found, rfl⟩
  | cons event rest ih =>
    have isOld : id < document.size := of_decide_eq_true (hasNode_of_node? found)
    have next := node?_undergo event isOld
    rw [found, Option.map_some] at next
    obtain ⟨kept, isKept, same⟩ := ih next
    refine ⟨kept, isKept, same.trans ?_⟩
    split
    · cases node with
      | element element => cases event <;> rfl
      | text content => rfl
    · rfl

/-- What is created is named by the next identity, which is that of a node from then on. -/
theorem respond_created {call : DocumentCall} {id : NodeId}
    (created : (document.respond call).1 = .created id) :
    document.hasNode id = false ∧ (document.respond call).2.hasNode id = true := by
  have isNext : id = document.size ∧ document.size < (document.respond call).2.size := by
    cases call with
    | createElement tag =>
      obtain rfl := DocumentReply.created.inj created
      exact ⟨rfl, Nat.lt_of_lt_of_eq (Nat.lt_succ_self _) (size_addNode document _).symm⟩
    | createText content =>
      obtain rfl := DocumentReply.created.inj created
      exact ⟨rfl, Nat.lt_of_lt_of_eq (Nat.lt_succ_self _) (size_addNode document _).symm⟩
    | build tree =>
      obtain rfl := DocumentReply.created.inj created
      have materializes := document.build_materializes tree
      have filled : 0 < tree.size := by
        cases tree with
        | element tag attributes properties children => exact Nat.succ_pos _
        | text content => exact Nat.succ_pos _
      have size : (document.respond (.build tree)).2.size = document.size + tree.size :=
        materializes.size
      exact ⟨materializes.root, by omega⟩
    | ask query => cases query <;> cases created
    | _ => cases created
  obtain ⟨rfl, grown⟩ := isNext
  exact ⟨decide_eq_false (Nat.lt_irrefl _), decide_eq_true grown⟩

theorem respond_of_not_element {call : DocumentCall} {id : NodeId}
    (addressed : call.target? = some id) (noElement : document.element? id = none) :
    (document.respond call).2 = document := by
  obtain ⟨event, single, target⟩ : ∃ event, call.events document.size = [event] ∧
      event.target? = some id := by
    cases call with
    | createElement tag => cases addressed
    | createText content => cases addressed
    | build tree => cases addressed
    | ask query => cases addressed
    | _ => exact ⟨_, rfl, addressed⟩
  rw [respond_undergoes, single]
  exact undergo_of_not_element target noElement

/-- After whatever calls a document records their history. Its nodes keep their identities, their
kinds and their tags or texts whatever is called later, and an identity that is handed out is new. A
call that is addressed to a text or to an identity without a node leaves the document as it is, and so
does a query. -/
theorem keeps_history (calls later : List DocumentCall) :
    let document := Document.empty.respondAll calls
    document.Records (history 0 calls) ∧
      (∀ id node, document.node? id = some node →
        ∃ kept, (document.respondAll later).node? id = some kept ∧ kept.kind = node.kind) ∧
      (∀ call id, (document.respond call).1 = .created id →
        document.hasNode id = false ∧ (document.respond call).2.hasNode id = true) ∧
      (∀ call id, call.target? = some id → document.element? id = none →
        (document.respond call).2 = document) ∧
      ∀ query, (document.respond (.ask query)).2 = document := by
  intro document
  refine ⟨?_, ?_, fun _ _ => respond_created, fun _ _ => respond_of_not_element, fun _ => rfl⟩
  · have undergone : document = Document.empty.undergoAll (history 0 calls) :=
      respondAll_undergoes calls rfl
    rw [undergone]
    exact records_undergoAll _
  · intro id node found
    rw [respondAll_undergoes later rfl]
    exact kind_undergoAll _ found

end Document

/-- A list whose class is set, removed and set again, with an item that is built into it, and calls to
a text and to identities without nodes. -/
def relabelling : List DocumentCall :=
  [.createElement "ul".toList, .appendChild 3 0, .setAttribute 0 "class".toList "old".toList,
    .setFlag 0 "hidden".toList true, .removeAttribute 0 "class".toList, .createText "x".toList,
    .build (.element "li".toList [("a".toList, "1".toList), ("a".toList, "2".toList)] []
      [.text "y".toList]),
    .appendChild 0 2, .setAttribute 1 "class".toList "lost".toList,
    .setAttribute 0 "class".toList "new".toList, .setFlag 0 "hidden".toList true]

/-- The class that was removed stands behind the flag that stayed. -/
theorem relabelled_list_keeps_history :
    let document := Document.empty.respondAll relabelling
    (∃ list, document.node? 0 = some (.element list) ∧
        list.Records 0 ((history 0 relabelling).drop 1)) ∧
      document.attributes 0 = [("hidden".toList, []), ("class".toList, "new".toList)] ∧
      document.attributes 2 = [("a".toList, "2".toList)] ∧ document.children 0 = [2] ∧
      (document.respond (.removeProperty 1 "p".toList)).2 = document ∧
      (document.respond (.appendChild 7 0)).2 = document := by
  intro document
  obtain ⟨records, -, -, idle, -⟩ := Document.keeps_history relabelling []
  have created : history 0 relabelling =
      [] ++ .created (.element "ul".toList) :: (history 0 relabelling).drop 1 := rfl
  obtain ⟨node, found, recorded⟩ := records.nodes _ _ _ created
  obtain ⟨list, rfl, -, recorded⟩ := recorded.exists_element
  exact ⟨⟨list, found, recorded⟩, by decide +kernel, by decide +kernel, by decide +kernel,
    idle _ 1 rfl (by decide +kernel), idle _ 7 rfl (by decide +kernel)⟩

end TreeTemplate
