import Mathlib.Data.List.Basic
import TreeTemplate.Proofs.SortedMap
import TreeTemplate.Template.Compiler

/-!
# Compiling a stripped document

A compile removes from its document the literals that a binding replaces. It never reads them, so
two documents that are the same without these literals are compiled to the same outcome, unless a
policy tells them apart. The document that a compile leaves is one of them, and so is one that a
failed compile leaves behind.
-/
set_option autoImplicit false

namespace TreeTemplate

variable {ι ω : Type}

namespace Entries

variable {κ β : Type} [DecidableEq κ]

theorem erase_eq_filter (key : κ) (entries : Entries κ β) (distinct : Distinct entries) :
    erase key entries = entries.filter fun pair => pair.1 ≠ key := by
  induction entries with
  | nil => rfl
  | cons head rest ih =>
    obtain ⟨name, value⟩ := head
    obtain ⟨fresh, later⟩ := List.nodup_cons.mp distinct
    by_cases same : name = key
    · subst same
      have kept : rest.filter (fun pair => pair.1 ≠ name) = rest := by
        rw [List.filter_eq_self]
        intro pair member
        rw [decide_eq_true_iff]
        intro repeated
        exact fresh (List.mem_map.mpr ⟨pair, member, repeated⟩)
      rw [erase, if_pos rfl, List.filter_cons_of_neg (by simp), kept]
    · simp [erase, same, ih later]

theorem eraseAll_eq_filter (names : List κ) (entries : Entries κ β) (distinct : Distinct entries) :
    eraseAll names entries = entries.filter fun pair => pair.1 ∉ names := by
  induction names generalizing entries with
  | nil => simp [eraseAll]
  | cons name rest ih =>
    have first := ih (erase name entries) (distinct_erase name entries distinct)
    rw [erase_eq_filter name entries distinct, List.filter_filter] at first
    rw [eraseAll, List.foldl_cons, ← eraseAll, erase_eq_filter name entries distinct, first]
    congr 1
    funext pair
    simp [Bool.and_comm]

theorem eraseAll_eraseAll (names : List κ) (entries : Entries κ β) (distinct : Distinct entries) :
    eraseAll names (eraseAll names entries) = eraseAll names entries := by
  rw [eraseAll_eq_filter names _ (distinct_eraseAll names entries distinct),
    eraseAll_eq_filter names entries distinct, List.filter_filter]
  simp

theorem not_mem_keys_eraseAll {names : List κ} {entries : Entries κ β} (distinct : Distinct entries)
    {name : κ} (isErased : name ∈ names) : name ∉ keys (eraseAll names entries) := by
  intro isKept
  obtain ⟨pair, member, rfl⟩ := List.mem_map.mp isKept
  rw [eraseAll_eq_filter names entries distinct] at member
  exact of_decide_eq_true (List.mem_filter.mp member).2 isErased

end Entries

theorem Element.properties_withoutBound (metadata : NodeMetadata ι ω) (element : Element) :
    (element.withoutBound metadata).properties =
      element.properties.filter fun pair => pair.1 ∉ metadata.properties.keys := by
  have erased := Entries.eraseAll_eq_filter metadata.properties.keys _ element.distinctProperties
  refine erased.trans (List.filter_congr ?_)
  intro pair member
  exact decide_eq_decide.mpr Iff.rfl

theorem Element.attributes_withoutBound (metadata : NodeMetadata ι ω) (element : Element) :
    (element.withoutBound metadata).attributes =
      element.attributes.filter fun pair => pair.1 ∉ metadata.attributes.keys := by
  have erased := Entries.eraseAll_eq_filter metadata.attributes.keys _ element.distinctAttributes
  refine erased.trans (List.filter_congr ?_)
  intro pair member
  exact decide_eq_decide.mpr Iff.rfl

theorem Element.withoutBound_withoutBound (metadata : NodeMetadata ι ω) (element : Element) :
    (element.withoutBound metadata).withoutBound metadata = element.withoutBound metadata := by
  simp only [Element.withoutBound, Element.mk.injEq, true_and, and_true]
  exact ⟨Entries.eraseAll_eraseAll _ _ element.distinctAttributes,
    Entries.eraseAll_eraseAll _ _ element.distinctProperties⟩

theorem Element.withoutBound_tag (metadata : NodeMetadata ι ω) (element : Element) :
    (element.withoutBound metadata).tag = element.tag := rfl

theorem Element.withoutBound_children (metadata : NodeMetadata ι ω) (element : Element) :
    (element.withoutBound metadata).children = element.children := rfl

theorem ofNode_insert_same (metadata : Metadata ι ω) (id : NodeId) (own : NodeMetadata ι ω) :
    Metadata.ofNode (metadata.insert id own) id = own := by
  rw [Metadata.ofNode, SortedMap.find?_insert_same]
  rfl

theorem ofNode_insert_other (metadata : Metadata ι ω) {id other : NodeId}
    (own : NodeMetadata ι ω) (apart : other ≠ id) :
    Metadata.ofNode (metadata.insert id own) other = metadata.ofNode other := by
  rw [Metadata.ofNode, SortedMap.find?_insert_other _ _ _ _ apart]
  rfl

def Stop.stripped (metadata : Metadata ι ω) : Stop → Stop
  | .enter depth id element inherited interpolate =>
    .enter depth id (element.withoutBound (metadata.ofNode id)) inherited interpolate
  | stop => stop

theorem emit_stripped (surroundings : Surroundings ι ω) (document : Document)
    (registry : Registry ι ω) (stop : Stop) :
    (stop.stripped surroundings.metadata).emit surroundings document registry =
      stop.emit surroundings document registry := by
  cases stop with
  | enter depth id element inherited interpolate =>
    simp only [Stop.stripped, Stop.emit, writeStart, Element.withoutBound_withoutBound]
    rfl
  | text depth interpolate content => rfl
  | leave depth tag childless => rfl
  | missing id => rfl
  | endless id => rfl

theorem transcribe_stripped (surroundings : Surroundings ι ω) (document : Document)
    (registry : Registry ι ω) (tour : List Stop) :
    transcribe surroundings document registry (tour.map (Stop.stripped surroundings.metadata)) =
      transcribe surroundings document registry tour := by
  induction tour generalizing document registry with
  | nil => rfl
  | cons stop rest ih =>
    have strip : (stop.stripped surroundings.metadata).strip surroundings.metadata document =
        stop.strip surroundings.metadata document := by
      cases stop <;> rfl
    simp only [List.map_cons, transcribe, strip, emit_stripped, ih]

def Node.stripped (metadata : Metadata ι ω) (id : NodeId) : Node → Node :=
  Node.onElement (Element.withoutBound (metadata.ofNode id))

/-- The documents are the same without the literals that a binding replaces. -/
structure Document.Agrees (metadata : Metadata ι ω) (left right : Document) : Prop where
  size : left.size = right.size
  nodes : ∀ id, (left.node? id).map (Node.stripped metadata id) =
    (right.node? id).map (Node.stripped metadata id)

theorem Node.stripped_stripped (metadata : Metadata ι ω) (id : NodeId) (node : Node) :
    Node.stripped metadata id (Node.stripped metadata id node) = Node.stripped metadata id node := by
  cases node with
  | element element =>
    simp only [Node.stripped, Node.onElement, Element.withoutBound_withoutBound]
  | text content => rfl

section Agreement
variable {metadata : Metadata ι ω}

theorem node?_dropBound_same (document : Document) (id : NodeId) :
    (document.dropBound metadata id).node? id =
      (document.node? id).map (Node.stripped metadata id) :=
  document.node?_onElement_same id _

theorem agrees_dropBound (document : Document) (id : NodeId) :
    document.Agrees metadata (document.dropBound metadata id) where
  size := (document.size_onElement id _).symm
  nodes other := by
    by_cases same : id = other
    · subst same
      rw [node?_dropBound_same, Option.map_map]
      congr 1
      funext node
      exact (Node.stripped_stripped metadata id node).symm
    · rw [Document.dropBound, Document.node?_onElement_other document same]

theorem Document.Agrees.refl (document : Document) : document.Agrees metadata document :=
  ⟨rfl, fun _ => rfl⟩

theorem Document.Agrees.trans {left middle right : Document} (first : left.Agrees metadata middle)
    (second : middle.Agrees metadata right) : left.Agrees metadata right where
  size := first.size.trans second.size
  nodes id := (first.nodes id).trans (second.nodes id)

theorem Document.Agrees.symm {left right : Document} (agrees : left.Agrees metadata right) :
    right.Agrees metadata left where
  size := agrees.size.symm
  nodes id := (agrees.nodes id).symm

section Kinds
variable {left right : Document} (agrees : left.Agrees metadata right) (id : NodeId)
include agrees

/-- A node and the one that agrees with it are of the same kind. -/
theorem Document.Agrees.node_cases :
    (left.node? id = none ∧ right.node? id = none) ∨
      (∃ content, left.node? id = some (.text content) ∧ right.node? id = some (.text content)) ∨
      ∃ first second, left.node? id = some (.element first) ∧
        right.node? id = some (.element second) ∧
          first.withoutBound (metadata.ofNode id) = second.withoutBound (metadata.ofNode id) := by
  have same := agrees.nodes id
  cases leftFound : left.node? id with
  | none =>
    rw [leftFound] at same
    exact Or.inl ⟨rfl, by simpa using same.symm⟩
  | some node =>
    rw [leftFound] at same
    obtain ⟨other, rightFound, stripped⟩ := Option.map_eq_some_iff.mp same.symm
    cases node with
    | text content =>
      cases other with
      | element second => cases stripped
      | text own =>
        obtain rfl := Node.text.inj stripped
        exact Or.inr (Or.inl ⟨own, rfl, rightFound⟩)
    | element first =>
      cases other with
      | text own => cases stripped
      | element second =>
        exact Or.inr (Or.inr ⟨first, second, rfl, rightFound, (Node.element.inj stripped).symm⟩)

theorem Document.Agrees.children : left.children id = right.children id := by
  rcases agrees.node_cases id with ⟨leftNone, rightNone⟩ | ⟨content, leftText, rightText⟩ |
    ⟨first, second, leftFound, rightFound, same⟩
  · simp [Document.children, Document.element?, leftNone, rightNone]
  · simp [Document.children, Document.element?, leftText, rightText]
  · have children := congrArg Element.children same
    rw [Element.withoutBound_children, Element.withoutBound_children] at children
    simpa [Document.children, Document.element?, leftFound, rightFound, Node.element?] using children

theorem Document.Agrees.isElement :
    (left.element? id).isSome = (right.element? id).isSome := by
  rcases agrees.node_cases id with ⟨leftNone, rightNone⟩ | ⟨content, leftText, rightText⟩ |
    ⟨first, second, leftFound, rightFound, -⟩
  · simp [Document.element?, leftNone, rightNone]
  · simp [Document.element?, leftText, rightText]
  · simp [Document.element?, leftFound, rightFound, Node.element?]

end Kinds

theorem Document.Agrees.text {left right : Document} (agrees : left.Agrees metadata right)
    {id : NodeId} {content : Text} (found : left.node? id = some (.text content)) :
    right.node? id = some (.text content) := by
  rcases agrees.node_cases id with ⟨missing, -⟩ | ⟨own, isText, same⟩ | ⟨first, -, isElement, -, -⟩
  · cases missing.symm.trans found
  · rwa [Node.text.inj (Option.some.inj (isText.symm.trans found))] at same
  · cases isElement.symm.trans found

theorem Document.Agrees.element {left right : Document} (agrees : left.Agrees metadata right)
    {id : NodeId} {first : Element} (found : left.node? id = some (.element first)) :
    ∃ second, right.node? id = some (.element second) ∧
      first.withoutBound (metadata.ofNode id) = second.withoutBound (metadata.ofNode id) := by
  rcases agrees.node_cases id with ⟨missing, -⟩ | ⟨own, isText, -⟩ |
    ⟨own, second, isElement, same, stripped⟩
  · cases missing.symm.trans found
  · cases isText.symm.trans found
  · obtain rfl := Node.element.inj (Option.some.inj (isElement.symm.trans found))
    exact ⟨second, same, stripped⟩

/-- A change of one element is made up for by what is bound there afterwards. -/
theorem Document.Agrees.onElement {left right : Document} {changed : Metadata ι ω} {id : NodeId}
    {change : Element → Element} (agrees : left.Agrees metadata right)
    (others : ∀ other, other ≠ id → changed.ofNode other = metadata.ofNode other)
    (drops : ∀ first second : Element,
      first.withoutBound (metadata.ofNode id) = second.withoutBound (metadata.ofNode id) →
        first.withoutBound (changed.ofNode id) =
          (change second).withoutBound (changed.ofNode id)) :
    left.Agrees changed (right.onElement id change) where
  size := agrees.size.trans (right.size_onElement id change).symm
  nodes other := by
    by_cases same : other = id
    · subst same
      rw [Document.node?_onElement_same, Option.map_map]
      rcases agrees.node_cases other with ⟨leftNone, rightNone⟩ | ⟨content, leftText, rightText⟩ |
        ⟨first, second, leftFound, rightFound, same⟩
      · rw [leftNone, rightNone]
        rfl
      · rw [leftText, rightText]
        rfl
      · rw [leftFound, rightFound]
        exact congrArg (fun element => some (Node.element element)) (drops first second same)
    · rw [Document.node?_onElement_other right (Ne.symm same)]
      have nodes := agrees.nodes other
      unfold Node.stripped at nodes ⊢
      rw [others other same]
      exact nodes

/-- What is attached to one element can change as long as the same literals are bound there. -/
theorem Document.Agrees.attach {left right : Document} {changed : Metadata ι ω} {id : NodeId}
    (agrees : left.Agrees metadata right)
    (others : ∀ other, other ≠ id → changed.ofNode other = metadata.ofNode other)
    (same : ∀ element : Element,
      element.withoutBound (changed.ofNode id) = element.withoutBound (metadata.ofNode id)) :
    left.Agrees changed right where
  size := agrees.size
  nodes other := by
    have nodes := agrees.nodes other
    have stripped : Node.stripped changed other = Node.stripped metadata other := by
      unfold Node.stripped
      by_cases isChanged : other = id
      · subst isChanged
        exact congrArg Node.onElement (funext same)
      · rw [others other isChanged]
    rw [stripped]
    exact nodes

theorem Document.Agrees.dropBound {left right : Document} (agrees : left.Agrees metadata right)
    (id : NodeId) : (left.dropBound metadata id).Agrees metadata (right.dropBound metadata id) :=
  (agrees_dropBound left id).symm.trans (agrees.trans (agrees_dropBound right id))

theorem Document.Agrees.strip {left right : Document} (agrees : left.Agrees metadata right)
    (stop : Stop) : (stop.strip metadata left).Agrees metadata (stop.strip metadata right) := by
  cases stop with
  | enter depth id element inherited interpolate => exact agrees.dropBound id
  | text depth interpolate content => exact agrees
  | leave depth tag childless => exact agrees
  | missing id => exact agrees
  | endless id => exact agrees

theorem agrees_strip (document : Document) (stop : Stop) :
    document.Agrees metadata (stop.strip metadata document) := by
  cases stop with
  | enter depth id element inherited interpolate => exact agrees_dropBound document id
  | text depth interpolate content => exact Document.Agrees.refl document
  | leave depth tag childless => exact Document.Agrees.refl document
  | missing id => exact Document.Agrees.refl document
  | endless id => exact Document.Agrees.refl document

theorem agrees_transcribe (surroundings : Surroundings ι ω) (document : Document)
    (registry : Registry ι ω) (tour : List Stop) :
    document.Agrees surroundings.metadata
      (transcribe surroundings document registry tour).document := by
  induction tour generalizing document registry with
  | nil => exact Document.Agrees.refl document
  | cons stop rest ih =>
    have first : document.Agrees surroundings.metadata
        (stop.strip surroundings.metadata document) := agrees_strip document stop
    rw [transcribe]
    dsimp only
    split
    · exact first
    · exact first.trans (ih _ _)

/-- The document that a compile leaves agrees with the one it was given, also after an error. -/
theorem agrees_compile (surroundings : Surroundings ι ω) (document : Document)
    (roots : List NodeId) (named : SortedMap Text (Provider ι)) :
    document.Agrees surroundings.metadata (compile surroundings document roots named).document := by
  rw [compile]
  dsimp only
  split <;> exact agrees_transcribe surroundings document _ _

/-- Agreeing documents have the same tours, up to the literals that a binding replaces. -/
theorem tourFrom_stripped {left right : Document} (agrees : left.Agrees metadata right)
    (modes : NodeId → Interpolation) (bound depth : Nat) (inherited : Bool) (id : NodeId) :
    (left.tourFrom modes bound depth inherited id).map (Stop.stripped metadata) =
      (right.tourFrom modes bound depth inherited id).map (Stop.stripped metadata) := by
  induction bound using Nat.strongRecOn generalizing depth inherited id with
  | ind bound ih =>
    rcases agrees.node_cases id with ⟨leftNone, rightNone⟩ | ⟨content, leftText, rightText⟩ |
      ⟨element, other, leftFound, rightFound, elements⟩
    · rw [Document.tourFrom, Document.tourFrom, leftNone, rightNone]
    · rw [Document.tourFrom, Document.tourFrom, leftText, rightText]
    · have tags := congrArg Element.tag elements
      have children := congrArg Element.children elements
      rw [Element.withoutBound_tag, Element.withoutBound_tag] at tags
      rw [Element.withoutBound_children, Element.withoutBound_children] at children
      cases bound with
      | zero => rw [Document.tourFrom, Document.tourFrom, leftFound, rightFound]
      | succ bound =>
        have below := ih bound (Nat.lt_succ_self bound) (depth + 1) ((modes id).resolve inherited)
        rw [Document.tourFrom, Document.tourFrom, leftFound, rightFound]
        simp only [List.map_cons, List.map_append, List.map_flatMap, Stop.stripped, elements,
          tags, children, below]

theorem tour_stripped {left right : Document} (agrees : left.Agrees metadata right)
    (modes : NodeId → Interpolation) (roots : List NodeId) :
    (left.tour modes roots).map (Stop.stripped metadata) =
      (right.tour modes roots).map (Stop.stripped metadata) := by
  simp only [Document.tour, List.map_flatMap, agrees.size, tourFrom_stripped agrees]

end Agreement

/-! ## Policies -/

/-- The policy does not look at the literals that a binding replaces. The element in question has
lost its own by the time it is asked, so the policy may look at everything there. -/
def ActivationPolicy.IgnoresBound (policy : ActivationPolicy ι ω) (metadata : Metadata ι ω) : Prop :=
  ∀ (left right : Document) (id : NodeId), left.Agrees metadata right →
    left.node? id = right.node? id → policy.appliesTo left id = policy.appliesTo right id

def Surroundings.IgnoresBound (surroundings : Surroundings ι ω) : Prop :=
  ∀ policy ∈ surroundings.policies, policy.IgnoresBound surroundings.metadata

theorem forTag_ignoresBound (tag event : Text) (forward : NodeId → ι → ω)
    (metadata : Metadata ι ω) :
    (ActivationPolicy.forTag tag event forward).IgnoresBound metadata := by
  intro left right id _ same
  simp only [ActivationPolicy.forTag, Document.tag?, Document.element?, same]

section Policies
variable {surroundings : Surroundings ι ω}

theorem synthesize_congr (left right : Document) (id : NodeId)
    (policies : List (ActivationPolicy ι ω)) (taken : List Text)
    (same : ∀ policy ∈ policies, policy.appliesTo left id = policy.appliesTo right id) :
    ActivationPolicy.synthesize left id policies taken =
      ActivationPolicy.synthesize right id policies taken := by
  induction policies generalizing taken with
  | nil => rfl
  | cons policy rest ih =>
    rw [List.forall_mem_cons] at same
    simp only [ActivationPolicy.synthesize, same.1, ih _ same.2]

/-- A stop adds the same in agreeing documents, if no policy tells them apart. -/
theorem emit_agrees (ignores : surroundings.IgnoresBound)
    {left right : Document} (agrees : left.Agrees surroundings.metadata right)
    (registry : Registry ι ω) (stop : Stop) :
    stop.emit surroundings (stop.strip surroundings.metadata left) registry =
      stop.emit surroundings (stop.strip surroundings.metadata right) registry := by
  cases stop with
  | enter depth id element inherited interpolate =>
    have nodes := agrees.nodes id
    rw [← node?_dropBound_same, ← node?_dropBound_same] at nodes
    have synthesized :
        surroundings.synthesized (left.dropBound surroundings.metadata id) id =
          surroundings.synthesized (right.dropBound surroundings.metadata id) id := by
      refine synthesize_congr _ _ id surroundings.policies _ ?_
      intro policy member
      exact ignores policy member _ _ id (agrees.dropBound id) nodes
    simp only [Stop.emit, Stop.strip, writeStart, synthesized]
  | text depth interpolate content => rfl
  | leave depth tag childless => rfl
  | missing id => rfl
  | endless id => rfl

theorem transcribe_agrees (ignores : surroundings.IgnoresBound)
    {left right : Document} (agrees : left.Agrees surroundings.metadata right)
    (registry : Registry ι ω) (tour : List Stop) :
    (transcribe surroundings left registry tour).text =
        (transcribe surroundings right registry tour).text ∧
      (transcribe surroundings left registry tour).registry =
        (transcribe surroundings right registry tour).registry ∧
      (transcribe surroundings left registry tour).fault =
        (transcribe surroundings right registry tour).fault := by
  induction tour generalizing left right registry with
  | nil => exact ⟨rfl, rfl, rfl⟩
  | cons stop rest ih =>
    rw [transcribe, transcribe]
    dsimp only
    rw [emit_agrees ignores agrees]
    split
    · exact ⟨rfl, rfl, rfl⟩
    · obtain ⟨text, registries, fault⟩ := ih (agrees.strip stop)
        (stop.emit surroundings (stop.strip surroundings.metadata right) registry).registry
      dsimp only
      rw [text]
      exact ⟨rfl, registries, fault⟩

theorem compile_agrees (ignores : surroundings.IgnoresBound)
    {left right : Document} (agrees : left.Agrees surroundings.metadata right)
    (roots : List NodeId) (named : SortedMap Text (Provider ι)) :
    (compile surroundings left roots named).outcome =
      (compile surroundings right roots named).outcome := by
  have tours := tour_stripped agrees surroundings.metadata.interpolation roots
  have transcripts := congrArg (transcribe surroundings left (Registry.ofNamed named)) tours
  rw [transcribe_stripped, transcribe_stripped] at transcripts
  obtain ⟨text, registries, fault⟩ := transcribe_agrees ignores agrees (Registry.ofNamed named)
    (right.tour surroundings.metadata.interpolation roots)
  rw [compile, compile]
  dsimp only
  rw [transcripts, fault]
  split
  · rfl
  · rw [text, registries]

end Policies

end TreeTemplate
