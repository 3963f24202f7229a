import TreeTemplate.Document.Blueprint
import TreeTemplate.Proofs.Document.Reachability

/-!
# Documents that show trees

A document shows a forest below some of its identities if following the children there spells out
the trees of the forest. A document shows one forest at most below given identities, and what is
shown is without cycles. Building a forest adds nodes that show it, with the entries of its elements
settled: they stand in pre-order behind the nodes that are there, which stay as they are.
-/
set_option autoImplicit false

namespace TreeTemplate

inductive Shows (node? : NodeId → Option Node) : List NodeId → List Blueprint → Prop where
  | done : Shows node? [] []
  | text {id : NodeId} {content : Text} {ids : List NodeId} {forest : List Blueprint}
      (found : node? id = some (.text content)) (later : Shows node? ids forest) :
      Shows node? (id :: ids) (.text content :: forest)
  | element {id : NodeId} {element : Element} {ids : List NodeId} {children forest : List Blueprint}
      (found : node? id = some (.element element)) (inside : Shows node? element.children children)
      (later : Shows node? ids forest) :
      Shows node? (id :: ids)
        (.element element.tag element.attributes element.properties children :: forest)

def Document.ShowsAll (document : Document) : List NodeId → List Blueprint → Prop :=
  Shows document.node?

namespace Shows
variable {node? : NodeId → Option Node}

theorem functional {ids : List NodeId} {left right : List Blueprint} (first : Shows node? ids left)
    (second : Shows node? ids right) : left = right := by
  induction first generalizing right with
  | done => cases second; rfl
  | text found _ ih =>
    cases second with
    | text other later =>
      obtain rfl := Node.text.inj (Option.some.inj (found.symm.trans other))
      rw [ih later]
    | element other _ _ => cases found.symm.trans other
  | element found _ _ ihInside ihLater =>
    cases second with
    | text other _ => cases found.symm.trans other
    | element other inside later =>
      obtain rfl := Node.element.inj (Option.some.inj (found.symm.trans other))
      rw [ihInside inside, ihLater later]

theorem of_mem {ids : List NodeId} {forest : List Blueprint} (shows : Shows node? ids forest)
    {id : NodeId} (member : id ∈ ids) : ∃ tree ∈ forest, Shows node? [id] [tree] := by
  induction shows with
  | done => cases member
  | text found _ ih =>
    rcases List.mem_cons.mp member with rfl | later
    · exact ⟨_, List.mem_cons_self, .text found .done⟩
    · obtain ⟨tree, isTree, shown⟩ := ih later
      exact ⟨tree, List.mem_cons_of_mem _ isTree, shown⟩
  | element found inside _ _ ih =>
    rcases List.mem_cons.mp member with rfl | later
    · exact ⟨_, List.mem_cons_self, .element found inside .done⟩
    · obtain ⟨tree, isTree, shown⟩ := ih later
      exact ⟨tree, List.mem_cons_of_mem _ isTree, shown⟩

theorem isEmpty {ids : List NodeId} {forest : List Blueprint} (shows : Shows node? ids forest) :
    ids.isEmpty = forest.isEmpty := by
  cases shows <;> rfl

end Shows

namespace Document
variable {document : Document}

theorem shows_child {id child : NodeId} {tree : Blueprint} (shows : document.ShowsAll [id] [tree])
    (isChild : child ∈ document.children id) :
    ∃ part, document.ShowsAll [child] [part] ∧ sizeOf part < sizeOf tree := by
  cases shows with
  | text found later =>
    rw [children_of_text found] at isChild
    cases isChild
  | element found inside later =>
    rw [children_of_element found] at isChild
    obtain ⟨part, isPart, shown⟩ := inside.of_mem isChild
    have smaller := List.sizeOf_lt_of_mem isPart
    refine ⟨part, shown, ?_⟩
    simp only [Blueprint.element.sizeOf_spec]
    omega

theorem shows_below {id other : NodeId} {tree : Blueprint} (shows : document.ShowsAll [id] [tree])
    (below : Relation.TransGen (fun parent child => child ∈ document.children parent) id other) :
    ∃ part, document.ShowsAll [other] [part] ∧ sizeOf part < sizeOf tree := by
  induction below with
  | single isChild => exact shows_child shows isChild
  | tail _ isChild ih =>
    obtain ⟨part, shown, smaller⟩ := ih
    obtain ⟨deeper, shownDeeper, smallest⟩ := shows_child shown isChild
    exact ⟨deeper, shownDeeper, by omega⟩

/-- What shows a forest has no cycles: an identity below itself would show a part of what it shows. -/
theorem ShowsAll.acyclicBelow {roots : List NodeId} {forest : List Blueprint}
    (shows : document.ShowsAll roots forest) : document.AcyclicBelow roots := by
  intro root isRoot id reaches cycle
  obtain ⟨tree, -, shown⟩ := shows.of_mem isRoot
  have reached : ∃ tree, document.ShowsAll [id] [tree] := by
    rcases Relation.reflTransGen_iff_eq_or_transGen.mp reaches with rfl | below
    · exact ⟨tree, shown⟩
    · obtain ⟨part, shownPart, -⟩ := shows_below shown below
      exact ⟨part, shownPart⟩
  obtain ⟨own, shownOwn⟩ := reached
  obtain ⟨part, shownPart, smaller⟩ := shows_below shownOwn cycle
  have same := List.head_eq_of_cons_eq (shownOwn.functional shownPart)
  rw [same] at smaller
  exact Nat.lt_irrefl _ smaller

end Document

/-- The forest below identities, where its nodes are those from `first` on, in pre-order, up to
`next`. -/
inductive Spans (node? : NodeId → Option Node) :
    Nat → List NodeId → List Blueprint → Nat → Prop where
  | done {first : Nat} : Spans node? first [] [] first
  | text {first next : Nat} {content : Text} {ids : List NodeId} {forest : List Blueprint}
      (found : node? first = some (.text content))
      (later : Spans node? (first + 1) ids forest next) :
      Spans node? first (first :: ids) (.text content :: forest) next
  | element {first middle next : Nat} {element : Element} {ids : List NodeId}
      {children forest : List Blueprint} (found : node? first = some (.element element))
      (inside : Spans node? (first + 1) element.children children middle)
      (later : Spans node? middle ids forest next) :
      Spans node? first (first :: ids)
        (.element element.tag element.attributes element.properties children :: forest) next

namespace Spans
variable {node? : NodeId → Option Node} {first next : Nat} {ids : List NodeId}
  {forest : List Blueprint}

theorem le (spans : Spans node? first ids forest next) : first ≤ next := by
  induction spans with
  | done => exact Nat.le_refl _
  | text found later ih => omega
  | element found inside later ihInside ihLater => omega

theorem shows (spans : Spans node? first ids forest next) : Shows node? ids forest := by
  induction spans with
  | done => exact .done
  | text found later ih => exact .text found ih
  | element found inside later ihInside ihLater => exact .element found ihInside ihLater

theorem cons {id : NodeId} {middle : Nat} {tree : Blueprint}
    (spans : Spans node? first [id] [tree] middle) (later : Spans node? middle ids forest next) :
    Spans node? first (id :: ids) (tree :: forest) next := by
  cases spans with
  | text found nothing =>
    cases nothing
    exact .text found later
  | element found inside nothing =>
    cases nothing
    exact .element found inside later

/-- Only the nodes of the forest matter. -/
theorem congr {other : NodeId → Option Node} (spans : Spans node? first ids forest next)
    (same : ∀ id : Nat, first ≤ id → id < next → other id = node? id) :
    Spans other first ids forest next := by
  induction spans with
  | done => exact .done
  | text found later ih =>
    have below := later.le
    refine .text ?_ (ih fun id atLeast before => same id (by omega) before)
    rw [same _ (Nat.le_refl _) (by omega), found]
  | element found inside later ihInside ihLater =>
    have belowInside := inside.le
    have belowLater := later.le
    refine .element ?_ (ihInside fun id atLeast before => same id (by omega) (by omega))
      (ihLater fun id atLeast before => same id (by omega) before)
    rw [same _ (Nat.le_refl _) (by omega), found]

end Spans

/-- The nodes of a forest in pre-order are visited in the order of their identities. -/
theorem Spans.visits {document : Document} {first next : Nat} {ids : List NodeId}
    {forest : List Blueprint} (spans : Spans document.node? first ids forest next) :
    document.Visits ids (List.range' first (next - first)) := by
  have consecutive {first middle next : Nat} (inside : first + 1 ≤ middle)
      (later : middle ≤ next) :
      List.range' first (next - first) =
        first :: (List.range' (first + 1) (middle - (first + 1)) ++
          List.range' middle (next - middle)) := by
    obtain ⟨inner, rfl⟩ := Nat.exists_eq_add_of_le inside
    obtain ⟨outer, rfl⟩ := Nat.exists_eq_add_of_le later
    have total : first + 1 + inner + outer - first = inner + outer + 1 := by omega
    rw [Nat.add_sub_cancel_left, Nat.add_sub_cancel_left, List.range'_append_1, total,
      List.range'_succ]
  induction spans with
  | done =>
    rw [Nat.sub_self]
    exact .done
  | text found later ih =>
    rw [consecutive (Nat.le_refl _) later.le, Nat.sub_self]
    refine .visit (Document.hasNode_of_node? found) ?_ ih
    rw [Document.children_of_text found]
    exact .done
  | element found inside later ihInside ihLater =>
    rw [consecutive inside.le later.le]
    refine .visit (Document.hasNode_of_node? found) ?_ ihLater
    rw [Document.children_of_element found]
    exact ihInside

namespace Entries
variable {κ β : Type} [DecidableEq κ]

theorem upsert_new (key : κ) (value : β) (entries : Entries κ β) (absent : key ∉ keys entries) :
    upsert key value entries = entries ++ [(key, value)] := by
  induction entries with
  | nil => rfl
  | cons head rest ih =>
    obtain ⟨name, old⟩ := head
    rw [keys, List.map_cons, List.mem_cons, not_or] at absent
    rw [upsert, if_neg (Ne.symm absent.1), ih absent.2, List.cons_append]

theorem upsertAll_distinct (entries additions : Entries κ β)
    (distinct : Distinct (entries ++ additions)) :
    upsertAll entries additions = entries ++ additions := by
  induction additions generalizing entries with
  | nil => exact (List.append_nil entries).symm
  | cons head rest ih =>
    obtain ⟨name, value⟩ := head
    have absent : name ∉ keys entries := by
      intro member
      rw [Distinct, keys, List.map_append, List.nodup_append] at distinct
      exact distinct.2.2 name member name List.mem_cons_self rfl
    have shifted : entries ++ (name, value) :: rest = (entries ++ [(name, value)]) ++ rest := by
      simp
    rw [shifted] at distinct ⊢
    rw [upsertAll, List.foldl_cons, upsert_new name value entries absent]
    exact ih _ distinct

theorem distinct_upsertAll (entries additions : Entries κ β) (distinct : Distinct entries) :
    Distinct (upsertAll entries additions) := by
  induction additions generalizing entries with
  | nil => exact distinct
  | cons head rest ih => exact ih _ (distinct_upsert head.1 head.2 entries distinct)

end Entries

mutual

/-- The tree with the entries of its elements settled: a name that is set several times stands where
it was first set, with the value that it was last set to. -/
def Blueprint.settled : Blueprint → Blueprint
  | .text content => .text content
  | .element tag attributes properties children =>
    .element tag (Entries.upsertAll [] attributes) (Entries.upsertAll [] properties)
      (settledAll children)

def Blueprint.settledAll : List Blueprint → List Blueprint
  | [] => []
  | first :: rest => first.settled :: settledAll rest

end

/-- What a document shows is settled. -/
theorem Shows.settledAll {node? : NodeId → Option Node} {ids : List NodeId}
    {forest : List Blueprint} (shows : Shows node? ids forest) :
    Blueprint.settledAll forest = forest := by
  induction shows with
  | done => rfl
  | text found later ih => rw [Blueprint.settledAll, Blueprint.settled, ih]
  | @element id element ids children forest found inside later ihInside ihLater =>
    rw [Blueprint.settledAll, Blueprint.settled, ihInside, ihLater,
      Entries.upsertAll_distinct [] _ element.distinctAttributes,
      Entries.upsertAll_distinct [] _ element.distinctProperties]
    rfl

def Element.filled (tag : Text) (attributes : Entries Text Text)
    (properties : Entries Text PropertyValue) : Element where
  tag := tag
  attributes := Entries.upsertAll [] attributes
  properties := Entries.upsertAll [] properties
  children := []
  distinctAttributes := Entries.distinct_upsertAll [] _ Entries.distinct_nil
  distinctProperties := Entries.distinct_upsertAll [] _ Entries.distinct_nil

namespace Document

theorem modify_last (front : List Node) (last : Node) (change : Node → Node) :
    (front ++ [last]).modify front.length change = front ++ [change last] := by
  induction front with
  | nil => rfl
  | cons first rest ih => simp [ih]

theorem onElement_addNode (document : Document) (node : Node) (change : Element → Element) :
    (document.addNode node).2.onElement document.size change =
      (document.addNode (node.onElement change)).2 :=
  congrArg Document.mk (modify_last document.nodes node _)

theorem foldl_onElement_addNode {α : Type} (change : α → Element → Element) (document : Document)
    (steps : List α) (element : Element) :
    steps.foldl (fun current step => current.onElement document.size (change step))
        (document.addNode (.element element)).2 =
      (document.addNode (.element (steps.foldl (fun current step => change step current)
        element))).2 := by
  induction steps generalizing element with
  | nil => rfl
  | cons step rest ih =>
    rw [List.foldl_cons, onElement_addNode]
    exact ih (change step element)

theorem element_ext {left right : Element} (tag : left.tag = right.tag)
    (attributes : left.attributes = right.attributes)
    (properties : left.properties = right.properties)
    (children : left.children = right.children) : left = right := by
  cases left
  cases right
  simp only at tag attributes properties children
  subst tag attributes properties children
  rfl

def withAttribute (pair : Text × Text) (element : Element) : Element :=
  { element with
    attributes := Entries.upsert pair.1 pair.2 element.attributes
    distinctAttributes := Entries.distinct_upsert _ _ _ element.distinctAttributes }

def withProperty (pair : Text × PropertyValue) (element : Element) : Element :=
  { element with
    properties := Entries.upsert pair.1 pair.2 element.properties
    distinctProperties := Entries.distinct_upsert _ _ _ element.distinctProperties }

theorem foldl_withAttribute (pairs : Entries Text Text) (element : Element) :
    let filled := pairs.foldl (fun current pair => withAttribute pair current) element
    filled.tag = element.tag ∧ filled.attributes = Entries.upsertAll element.attributes pairs ∧
      filled.properties = element.properties ∧ filled.children = element.children := by
  induction pairs generalizing element with
  | nil => exact ⟨rfl, rfl, rfl, rfl⟩
  | cons pair rest ih => exact ih (withAttribute pair element)

theorem foldl_withProperty (pairs : Entries Text PropertyValue) (element : Element) :
    let filled := pairs.foldl (fun current pair => withProperty pair current) element
    filled.tag = element.tag ∧ filled.attributes = element.attributes ∧
      filled.properties = Entries.upsertAll element.properties pairs ∧
      filled.children = element.children := by
  induction pairs generalizing element with
  | nil => exact ⟨rfl, rfl, rfl, rfl⟩
  | cons pair rest ih => exact ih (withProperty pair element)

theorem createFilled_eq (document : Document) (tag : Text) (attributes : Entries Text Text)
    (properties : Entries Text PropertyValue) :
    document.createFilled tag attributes properties =
      document.addNode (.element (Element.filled tag attributes properties)) := by
  let bare : Element := ⟨tag, [], [], [], Entries.distinct_nil, Entries.distinct_nil⟩
  let withAttributes := attributes.foldl (fun current pair => withAttribute pair current) bare
  obtain ⟨ownTag, ownAttributes, noProperties, childless⟩ := foldl_withAttribute attributes bare
  obtain ⟨sameTag, sameAttributes, ownProperties, sameChildren⟩ :=
    foldl_withProperty properties withAttributes
  have same : properties.foldl (fun current pair => withProperty pair current) withAttributes =
      Element.filled tag attributes properties := by
    refine element_ext (sameTag.trans ownTag) (sameAttributes.trans ownAttributes) ?_
      (sameChildren.trans childless)
    rw [ownProperties, noProperties]
    rfl
  have afterAttributes := foldl_onElement_addNode withAttribute document attributes bare
  have afterProperties := foldl_onElement_addNode withProperty document properties withAttributes
  rw [same, ← afterAttributes] at afterProperties
  exact congrArg (Prod.mk document.size) afterProperties

/-! ## Building -/

structure KeepsBut (changed : NodeId) (before after : Document) : Prop where
  grows : before.size ≤ after.size
  kept : ∀ id < before.size, id ≠ changed → after.node? id = before.node? id

section Changes
variable (document : Document)

theorem node?_addNode_new (node : Node) :
    (document.addNode node).2.node? document.size = some node := by
  simp [addNode, node?, size]

theorem node?_addNode_old (node : Node) {id : NodeId} (old : id < document.size) :
    (document.addNode node).2.node? id = document.node? id := by
  simp only [addNode, node?, size] at old ⊢
  rw [List.getElem?_append_left old]

theorem size_addNode (node : Node) : (document.addNode node).2.size = document.size + 1 := by
  simp [addNode, size]

theorem keepsBut_addNode (node : Node) :
    KeepsBut document.size document (document.addNode node).2 where
  grows := by rw [size_addNode]; omega
  kept id old _ := document.node?_addNode_old node old

theorem node?_appendChild_same (parent child : NodeId) {element : Element}
    (found : document.node? parent = some (.element element)) :
    (document.appendChild parent child).node? parent =
      some (.element { element with children := element.children ++ [child] }) := by
  rw [appendChild, node?_onElement_same, found]
  rfl

theorem keepsBut_appendChild (parent child : NodeId) :
    KeepsBut parent document (document.appendChild parent child) where
  grows := Nat.le_of_eq (document.size_onElement parent _).symm
  kept _ _ apart := document.node?_onElement_other (Ne.symm apart) _

end Changes

section Kept
variable {changed : NodeId} {before between after : Document}

theorem KeepsBut.trans (first : KeepsBut changed before between)
    (second : KeepsBut changed between after) : KeepsBut changed before after where
  grows := Nat.le_trans first.grows second.grows
  kept id old apart := by
    rw [← first.kept id old apart]
    exact second.kept id (Nat.lt_of_lt_of_le old first.grows) apart

theorem KeepsBut.but (keeps : KeepsBut before.size before after) (changed : NodeId) :
    KeepsBut changed before after where
  grows := keeps.grows
  kept id old _ := keeps.kept id old (Nat.ne_of_lt old)

/-- A forest is kept if the changed node is not one of its nodes. -/
theorem KeepsBut.spans (keeps : KeepsBut changed before after) {first : Nat} {ids : List NodeId}
    {forest : List Blueprint} (spans : Spans before.node? first ids forest before.size)
    (outside : changed < first ∨ before.size ≤ changed) :
    Spans after.node? first ids forest before.size := by
  refine spans.congr ?_
  intro id atLeast inside
  refine keeps.kept id inside ?_
  rcases outside with isEarlier | isLater
  · exact Nat.ne_of_gt (Nat.lt_of_lt_of_le isEarlier atLeast)
  · exact Nat.ne_of_lt (Nat.lt_of_lt_of_le inside isLater)

end Kept

mutual

/-- Building a tree adds its nodes in pre-order. -/
theorem spans_build (tree : Blueprint) (document : Document) :
    Spans (document.build tree).2.node? document.size [(document.build tree).1] [tree.settled]
        (document.build tree).2.size ∧
      KeepsBut document.size document (document.build tree).2 := by
  cases tree with
  | text content =>
    refine ⟨?_, document.keepsBut_addNode (.text content)⟩
    have spans := Spans.text (document.node?_addNode_new (.text content)) .done
    rw [← document.size_addNode (.text content)] at spans
    exact spans
  | element tag attributes properties children =>
    let bare := Element.filled tag attributes properties
    have built : document.build (.element tag attributes properties children) =
        (document.size,
          (document.addNode (.element bare)).2.buildChildren document.size children) := by
      rw [build, createFilled_eq]
      rfl
    obtain ⟨ids, spans, found, keeps⟩ := spans_buildChildren children
      (document.addNode (.element bare)).2 document.size bare (document.node?_addNode_new _)
    rw [size_addNode] at spans
    rw [built]
    exact ⟨Spans.element found spans .done, (document.keepsBut_addNode _).trans keeps⟩

/-- Building a forest below an element adds its nodes in pre-order and makes its trees the last
children of the element. -/
theorem spans_buildChildren (forest : List Blueprint) (document : Document) (parent : NodeId)
    (element : Element) (found : document.node? parent = some (.element element)) :
    ∃ ids, Spans (document.buildChildren parent forest).node? document.size ids
        (Blueprint.settledAll forest) (document.buildChildren parent forest).size ∧
      (document.buildChildren parent forest).node? parent =
        some (.element { element with children := element.children ++ ids }) ∧
        KeepsBut parent document (document.buildChildren parent forest) := by
  cases forest with
  | nil =>
    refine ⟨[], .done, ?_, Nat.le_refl _, fun _ _ _ => rfl⟩
    rw [List.append_nil]
    exact found
  | cons first rest =>
    have isOld : parent < document.size := of_decide_eq_true (hasNode_of_node? found)
    obtain ⟨spans, keeps⟩ := spans_build first document
    rw [buildChildren]
    generalize document.build first = built at spans keeps ⊢
    obtain ⟨id, grown⟩ := built
    dsimp only at spans keeps ⊢
    have foundGrown : grown.node? parent = some (.element element) := by
      rw [keeps.kept parent isOld (Nat.ne_of_lt isOld)]
      exact found
    obtain ⟨ids, spansRest, foundRest, keepsRest⟩ := spans_buildChildren rest
      (grown.appendChild parent id) parent _ (grown.node?_appendChild_same parent id foundGrown)
    have keepsGrown := (grown.keepsBut_appendChild parent id).trans keepsRest
    rw [appendChild, size_onElement, ← appendChild] at spansRest
    refine ⟨id :: ids, (keepsGrown.spans spans (Or.inl isOld)).cons spansRest, ?_,
      (keeps.but parent).trans keepsGrown⟩
    rw [foundRest]
    simp

end

theorem spans_buildAll (forest : List Blueprint) (document : Document) :
    Spans (document.buildAll forest).2.node? document.size (document.buildAll forest).1
        (Blueprint.settledAll forest) (document.buildAll forest).2.size ∧
      KeepsBut document.size document (document.buildAll forest).2 := by
  induction forest generalizing document with
  | nil => exact ⟨.done, Nat.le_refl _, fun _ _ _ => rfl⟩
  | cons first rest ih =>
    obtain ⟨spans, keeps⟩ := spans_build first document
    rw [buildAll]
    generalize document.build first = built at spans keeps ⊢
    obtain ⟨id, grown⟩ := built
    dsimp only at spans keeps ⊢
    obtain ⟨spansRest, keepsRest⟩ := ih grown
    exact ⟨(keepsRest.spans spans (Or.inr (Nat.le_refl _))).cons spansRest,
      keeps.trans (keepsRest.but _)⟩

theorem showsAll_buildAll {forest : List Blueprint} (settled : Blueprint.settledAll forest = forest)
    (document : Document) :
    (document.buildAll forest).2.ShowsAll (document.buildAll forest).1 forest := by
  have shows := (spans_buildAll forest document).1.shows
  rwa [settled] at shows

/-- A forest that one document shows is shown by every document in which it is built. -/
theorem ShowsAll.buildAll {shown : Document} {ids : List NodeId} {forest : List Blueprint}
    (shows : shown.ShowsAll ids forest) (document : Document) :
    (document.buildAll forest).2.ShowsAll (document.buildAll forest).1 forest :=
  showsAll_buildAll shows.settledAll document

end Document

end TreeTemplate
