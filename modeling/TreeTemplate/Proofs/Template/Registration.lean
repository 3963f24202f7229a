import Mathlib.Data.List.Perm.Basic
import TreeTemplate.Proofs.Template.Exclusion
import TreeTemplate.Proofs.Template.Targeting

/-!
# The order of registrations

A registration names a property of the template, or attaches something to one element under an aspect
of its own. It does nothing to what is registered under another target, and its outcome does not
depend on it. Registrations for different targets therefore commute, and may come in any order.
-/
set_option autoImplicit false

namespace TreeTemplate

variable {ι ω : Type}

inductive Attachment (ι ω : Type) where
  | bindAttribute (name : Text) (provider : Provider ι)
  | bindProperty (name : Text) (provider : Provider ι)
  | listen (event : Text) (listener : Listener ι ω)
  | interpolate (enabled : Bool)

inductive Aspect where
  | attributeOf (name : Text)
  | propertyOf (name : Text)
  | listenerFor (event : Text)
  | interpolation
  deriving DecidableEq

namespace Attachment

def aspect : Attachment ι ω → Aspect
  | bindAttribute name _ => .attributeOf name
  | bindProperty name _ => .propertyOf name
  | listen event _ => .listenerFor event
  | interpolate _ => .interpolation

def edit : Attachment ι ω → NodeEdit ι ω
  | bindAttribute name provider => .bindAttribute name provider
  | bindProperty name provider => .bindProperty name provider
  | listen event listener => .listen event listener
  | interpolate enabled => .interpolate (if enabled then .enabled else .disabled)

end Attachment

inductive Registration (ι ω : Type) where
  | named (name : Text) (provider : Provider ι)
  | attached (id : NodeId) (attachment : Attachment ι ω)

inductive Target where
  | named (name : Text)
  | node (id : NodeId) (aspect : Aspect)
  deriving DecidableEq

def Registration.target : Registration ι ω → Target
  | named name _ => .named name
  | attached id attachment => .node id attachment.aspect

namespace Renderer

def register (renderer : Renderer ι ω) :
    Registration ι ω → Except TemplateError Unit × Renderer ι ω
  | .named name provider => (.ok (), renderer.withProperty name provider)
  | .attached id attachment => renderer.change id attachment.edit

/-- Makes several registrations, going on after one that fails. Returns the outcome of each. -/
def registerAll (renderer : Renderer ι ω) :
    List (Registration ι ω) → List (Except TemplateError Unit) × Renderer ι ω
  | [] => ([], renderer)
  | first :: rest =>
    let (outcome, registered) := renderer.register first
    let (outcomes, complete) := registered.registerAll rest
    (outcome :: outcomes, complete)

end Renderer

def SortedMap.insertNew {κ β : Type} [KeyOrder κ] [DecidableEq κ] (map : SortedMap κ β) (key : κ)
    (value : β) : SortedMap κ β :=
  if map.has key then map else map.insert key value

theorem SortedMap.has_insertNew_other {κ β : Type} [KeyOrder κ] [DecidableEq κ]
    (map : SortedMap κ β) {key other : κ} (apart : other ≠ key) (value : β) :
    (map.insertNew key value).has other = map.has other := by
  rw [insertNew]
  split
  · rfl
  · exact map.has_insert_other apart value

theorem SortedMap.insertNew_comm {κ β : Type} [KeyOrder κ] [DecidableEq κ] (map : SortedMap κ β)
    {first second : κ} (apart : first ≠ second) (value own : β) :
    (map.insertNew first value).insertNew second own =
      (map.insertNew second own).insertNew first value := by
  have kept := map.has_insertNew_other apart.symm value
  have keptOther := map.has_insertNew_other apart own
  rw [insertNew, kept, insertNew.eq_1 (map.insertNew second own), keptOther, insertNew, insertNew]
  split
  · rfl
  · split
    · rfl
    · exact map.insert_comm apart value own

def Element.withoutAttribute (element : Element) (name : Text) : Element :=
  { element with
    attributes := Entries.erase name element.attributes
    distinctAttributes := Entries.distinct_erase _ _ element.distinctAttributes }

def Element.withoutProperty (element : Element) (name : Text) : Element :=
  { element with
    properties := Entries.erase name element.properties
    distinctProperties := Entries.distinct_erase _ _ element.distinctProperties }

namespace Attachment

def attach : Attachment ι ω → NodeMetadata ι ω → NodeMetadata ι ω
  | bindAttribute name provider, own => { own with attributes := own.attributes.insert name provider }
  | bindProperty name provider, own => { own with properties := own.properties.insert name provider }
  | listen event listener, own => { own with listeners := own.listeners.insertNew event listener }
  | interpolate enabled, own =>
    { own with interpolation := if enabled then .enabled else .disabled }

def strip : Attachment ι ω → Element → Element
  | bindAttribute name _, element => element.withoutAttribute name
  | bindProperty name _, element => element.withoutProperty name
  | _, element => element

def outcome : Attachment ι ω → NodeMetadata ι ω → Except TemplateError Unit
  | listen event _, own =>
    if own.listeners.has event then .error (.duplicateListener event) else .ok ()
  | _, _ => .ok ()

theorem strip_comm (first second : Attachment ι ω) (element : Element) :
    second.strip (first.strip element) = first.strip (second.strip element) := by
  cases first <;> cases second <;>
    simp only [strip, Element.withoutAttribute, Element.withoutProperty, Entries.erase_comm]

section Apart
variable {first second : Attachment ι ω} (apart : first.aspect ≠ second.aspect)
include apart

theorem attach_comm (own : NodeMetadata ι ω) :
    second.attach (first.attach own) = first.attach (second.attach own) := by
  cases first with
  | bindAttribute name provider =>
    cases second with
    | bindAttribute other another =>
      have names : name ≠ other := fun same => apart (congrArg Aspect.attributeOf same)
      simp only [attach, own.attributes.insert_comm names]
    | _ => rfl
  | bindProperty name provider =>
    cases second with
    | bindProperty other another =>
      have names : name ≠ other := fun same => apart (congrArg Aspect.propertyOf same)
      simp only [attach, own.properties.insert_comm names]
    | _ => rfl
  | listen event listener =>
    cases second with
    | listen other another =>
      have events : event ≠ other := fun same => apart (congrArg Aspect.listenerFor same)
      simp only [attach, own.listeners.insertNew_comm events]
    | _ => rfl
  | interpolate enabled =>
    cases second with
    | interpolate other => exact absurd rfl apart
    | _ => rfl

theorem outcome_attach (own : NodeMetadata ι ω) :
    second.outcome (first.attach own) = second.outcome own := by
  cases second with
  | listen event listener =>
    cases first with
    | listen other another =>
      have events : event ≠ other := fun same => apart (congrArg Aspect.listenerFor same.symm)
      simp only [outcome, attach, own.listeners.has_insertNew_other events]
    | _ => rfl
  | _ => rfl

end Apart

end Attachment

/-! ## Changes of drafts -/

namespace Draft

def amend (draft : Draft ι ω) (id : NodeId) (own : NodeMetadata ι ω → NodeMetadata ι ω)
    (content : Element → Element) : Draft ι ω :=
  ⟨draft.document.onElement id content,
    draft.metadata.insert id (own (draft.metadata.ofNode id))⟩

theorem onElement_id (document : Document) (id : NodeId) : document.onElement id (·) = document := by
  refine document.onElement_eq_self ?_
  intro node found
  cases node <;> rfl

section Amendments
variable (draft : Draft ι ω) {first second : NodeId}
  {ownFirst ownSecond : NodeMetadata ι ω → NodeMetadata ι ω}
  {contentFirst contentSecond : Element → Element}

theorem ofNode_amend_other (apart : second ≠ first) :
    (draft.amend first ownFirst contentFirst).metadata.ofNode second =
      draft.metadata.ofNode second :=
  ofNode_insert_other draft.metadata _ apart

theorem amend_comm_apart (apart : first ≠ second) :
    (draft.amend first ownFirst contentFirst).amend second ownSecond contentSecond =
      (draft.amend second ownSecond contentSecond).amend first ownFirst contentFirst := by
  have document : (draft.document.onElement first contentFirst).onElement second contentSecond =
      (draft.document.onElement second contentSecond).onElement first contentFirst := by
    apply Document.ext_node?
    intro id
    by_cases isFirst : first = id
    · subst isFirst
      rw [Document.node?_onElement_other _ apart.symm, Document.node?_onElement_same,
        Document.node?_onElement_same, Document.node?_onElement_other _ apart.symm]
    · rw [Document.node?_onElement_other _ isFirst]
      by_cases isSecond : second = id
      · subst isSecond
        rw [Document.node?_onElement_same, Document.node?_onElement_same,
          Document.node?_onElement_other _ isFirst]
      · rw [Document.node?_onElement_other _ isSecond, Document.node?_onElement_other _ isSecond,
          Document.node?_onElement_other _ isFirst]
  rw [amend, amend.eq_1 (draft.amend second ownSecond contentSecond), draft.ofNode_amend_other apart,
    draft.ofNode_amend_other apart.symm]
  exact congrArg₂ Draft.mk document (draft.metadata.insert_comm apart _ _)

theorem amend_amend (id : NodeId) :
    (draft.amend id ownFirst contentFirst).amend id ownSecond contentSecond =
      draft.amend id (fun own => ownSecond (ownFirst own))
        (fun element => contentSecond (contentFirst element)) := by
  have metadata := congrArg Draft.metadata
    (draft.attach_attach id (ownFirst (draft.metadata.ofNode id))
      (ownSecond (ownFirst (draft.metadata.ofNode id))))
  have own : (draft.amend id ownFirst contentFirst).metadata.ofNode id =
      ownFirst (draft.metadata.ofNode id) :=
    ofNode_insert_same draft.metadata id _
  rw [amend, own]
  refine congrArg₂ Draft.mk ?_ metadata
  apply Document.ext_node?
  intro other
  by_cases same : id = other
  · subst same
    rw [Document.node?_onElement_same, amend, Document.node?_onElement_same,
      Document.node?_onElement_same, Option.map_map]
    congr 1
    funext node
    cases node <;> rfl
  · rw [Document.node?_onElement_other _ same, amend, Document.node?_onElement_other _ same,
      Document.node?_onElement_other _ same]

end Amendments

def add (draft : Draft ι ω) (id : NodeId) (attachment : Attachment ι ω) : Draft ι ω :=
  draft.amend id attachment.attach attachment.strip

theorem edit_attachment (draft : Draft ι ω) (id : NodeId) (attachment : Attachment ι ω) :
    draft.edit id attachment.edit =
      (attachment.outcome (draft.metadata.ofNode id),
        draft.add id attachment) := by
  have unchanged (own : NodeMetadata ι ω → NodeMetadata ι ω) :
      draft.amend id own (·) = draft.attach id (own (draft.metadata.ofNode id)) := by
    rw [amend, onElement_id]
    rfl
  cases attachment with
  | bindAttribute name provider => rfl
  | bindProperty name provider => rfl
  | interpolate enabled =>
    exact congrArg (Prod.mk _) (unchanged (Attachment.interpolate enabled).attach).symm
  | listen event listener =>
    have result := unchanged (Attachment.listen event listener).attach
    refine Eq.trans ?_ (congrArg (Prod.mk _) result.symm)
    rw [Attachment.edit, Draft.edit, NodeMetadata.addListener, Attachment.outcome]
    dsimp only [Attachment.attach]
    rw [SortedMap.insertNew]
    cases (draft.metadata.ofNode id).listeners.has event with
    | true => rfl
    | false => rfl

section Attaching
variable (draft : Draft ι ω) {id other : NodeId} {attachment another : Attachment ι ω}
  (apart : id = other → attachment.aspect ≠ another.aspect)
include apart

theorem add_comm :
    (draft.add id attachment).add other another = (draft.add other another).add id attachment := by
  by_cases same : id = other
  · subst same
    have attached : (fun own => another.attach (attachment.attach own)) =
        fun own => attachment.attach (another.attach own) :=
      funext (Attachment.attach_comm (apart rfl))
    have stripped : (fun element => another.strip (attachment.strip element)) =
        fun element => attachment.strip (another.strip element) :=
      funext (Attachment.strip_comm attachment another)
    rw [add, add, add, add, amend_amend, amend_amend, attached, stripped]
  · exact draft.amend_comm_apart same

theorem outcome_add :
    another.outcome ((draft.add id attachment).metadata.ofNode other) =
      another.outcome (draft.metadata.ofNode other) := by
  by_cases same : id = other
  · subst same
    have own : (draft.add id attachment).metadata.ofNode id =
        attachment.attach (draft.metadata.ofNode id) :=
      ofNode_insert_same draft.metadata id _
    rw [own, Attachment.outcome_attach (apart rfl)]
  · rw [add, draft.ofNode_amend_other (Ne.symm same)]

end Attaching

end Draft

section Refusals
variable (document : Document) {change : Element → Element}

theorem children_onElement (kept : ∀ element, (change element).children = element.children)
    (id : NodeId) : (document.onElement id change).children = document.children := by
  funext other
  by_cases same : id = other
  · subst same
    rw [Document.children, element?_onElement_same, Document.children]
    cases document.element? id with
    | none => rfl
    | some element => exact kept element
  · rw [Document.children, Document.children, Document.element?, Document.element?,
      Document.node?_onElement_other document same]

theorem isText_onElement (id other : NodeId) :
    (document.onElement id change).isText other = document.isText other := by
  rw [Document.isText, Document.isText, Document.text?, Document.text?]
  by_cases same : id = other
  · subst same
    rw [Document.node?_onElement_same]
    cases document.node? id with
    | none => rfl
    | some node => cases node <;> rfl
  · rw [Document.node?_onElement_other document same]

theorem contains_onElement (kept : ∀ element, (change element).children = element.children)
    (id ancestor target : NodeId) :
    (document.onElement id change).contains ancestor target =
      document.contains ancestor target := by
  have reaches : (document.onElement id change).Reaches = document.Reaches := by
    unfold Document.Reaches
    rw [children_onElement document kept id]
  rw [Bool.eq_iff_iff, Document.contains_iff, Document.contains_iff, reaches, Document.hasNode,
    Document.hasNode, Document.size_onElement]

end Refusals

theorem Attachment.children_strip (attachment : Attachment ι ω) (element : Element) :
    (attachment.strip element).children = element.children := by
  cases attachment <;> rfl

namespace Renderer

section Registering
variable (renderer : Renderer ι ω)

theorem refusal?_add (id other : NodeId) (attachment : Attachment ι ω) :
    (renderer.withDraft (renderer.draft.add id attachment)).refusal? other =
      renderer.refusal? other := by
  have contained : (renderer.roots.any fun root =>
        (renderer.document.onElement id attachment.strip).contains root other) =
      renderer.roots.any fun root => renderer.document.contains root other := by
    simp only [contains_onElement renderer.document attachment.children_strip]
  have isText : (renderer.document.onElement id attachment.strip).isText other =
      renderer.document.isText other :=
    isText_onElement renderer.document id other
  rw [refusal?, refusal?]
  change (if (!renderer.roots.any fun root =>
      (renderer.document.onElement id attachment.strip).contains root other) = true then _
    else if (renderer.document.onElement id attachment.strip).isText other = true then _
    else _) = _
  rw [contained, isText]

theorem register_refused {id : NodeId} {reason : TemplateError}
    (refused : renderer.refusal? id = some reason) (attachment : Attachment ι ω) :
    renderer.register (.attached id attachment) = (.error reason, renderer) := by
  rw [register, change, refused]

theorem register_accepted {id : NodeId} (accepted : renderer.refusal? id = none)
    (attachment : Attachment ι ω) :
    renderer.register (.attached id attachment) =
      (attachment.outcome (renderer.draft.metadata.ofNode id),
        renderer.withDraft (renderer.draft.add id attachment)) := by
  rw [register, change, accepted, Draft.edit_attachment]

theorem register_withProperty (name : Text) (provider : Provider ι) (id : NodeId)
    (attachment : Attachment ι ω) :
    (renderer.withProperty name provider).register (.attached id attachment) =
      ((renderer.register (.attached id attachment)).1,
        (renderer.register (.attached id attachment)).2.withProperty name provider) := by
  have same : (renderer.withProperty name provider).refusal? id = renderer.refusal? id := rfl
  rw [register, register, change, change, same]
  cases renderer.refusal? id with
  | some reason => rfl
  | none => rfl

theorem register_attached_comm {id other : NodeId} {attachment another : Attachment ι ω}
    (apart : id = other → attachment.aspect ≠ another.aspect) :
    ((renderer.register (.attached id attachment)).2.register (.attached other another)).1 =
        (renderer.register (.attached other another)).1 ∧
      ((renderer.register (.attached id attachment)).2.register (.attached other another)).2 =
        ((renderer.register (.attached other another)).2.register (.attached id attachment)).2 := by
  have afterFirst := renderer.refusal?_add id other attachment
  have afterSecond := renderer.refusal?_add other id another
  cases refused : renderer.refusal? id with
  | some reason =>
    rw [register_refused renderer refused]
    refine ⟨rfl, ?_⟩
    cases refusedOther : renderer.refusal? other with
    | some reasonOther =>
      rw [register_refused renderer refusedOther, register_refused renderer refused]
    | none =>
      rw [register_accepted renderer refusedOther,
        register_refused _ (afterSecond.trans refused)]
  | none =>
    rw [register_accepted renderer refused]
    cases refusedOther : renderer.refusal? other with
    | some reasonOther =>
      rw [register_refused renderer refusedOther,
        register_refused _ (afterFirst.trans refusedOther), register_accepted renderer refused]
      exact ⟨rfl, rfl⟩
    | none =>
      rw [register_accepted renderer refusedOther,
        register_accepted _ (afterFirst.trans refusedOther),
        register_accepted _ (afterSecond.trans refused)]
      exact ⟨renderer.draft.outcome_add apart,
        congrArg renderer.withDraft (renderer.draft.add_comm apart)⟩

/-- A registration changes neither the outcome of one for another target, nor what the two of them
come to. -/
theorem register_comm {first second : Registration ι ω} (apart : first.target ≠ second.target) :
    ((renderer.register first).2.register second).1 = (renderer.register second).1 ∧
      ((renderer.register first).2.register second).2 =
        ((renderer.register second).2.register first).2 := by
  cases first with
  | named name provider =>
    cases second with
    | named other another =>
      have names : name ≠ other := fun same => apart (congrArg Target.named same)
      refine ⟨rfl, ?_⟩
      simp only [register, withProperty, renderer.named.insert_comm names]
    | attached id attachment =>
      change ((renderer.withProperty name provider).register (.attached id attachment)).1 = _ ∧
        ((renderer.withProperty name provider).register (.attached id attachment)).2 = _
      rw [register_withProperty]
      exact ⟨rfl, rfl⟩
  | attached id attachment =>
    cases second with
    | named name provider =>
      refine ⟨rfl, ?_⟩
      change _ = ((renderer.withProperty name provider).register (.attached id attachment)).2
      rw [register_withProperty]
      rfl
    | attached other another =>
      apply register_attached_comm
      rintro rfl aspects
      exact apart (congrArg (Target.node id) aspects)

/-- Among registrations for different targets, each has the outcome that it has alone. -/
theorem outcomes_registerAll (registrations : List (Registration ι ω))
    (apart : (registrations.map Registration.target).Nodup) :
    (renderer.registerAll registrations).1 =
      registrations.map fun registration => (renderer.register registration).1 := by
  induction registrations generalizing renderer with
  | nil => rfl
  | cons first rest ih =>
    obtain ⟨absent, later⟩ := List.nodup_cons.mp apart
    have alone : rest.map (fun registration => ((renderer.register first).2.register registration).1) =
        rest.map fun registration => (renderer.register registration).1 := by
      refine List.map_congr_left ?_
      intro registration member
      refine (renderer.register_comm ?_).1
      intro same
      exact absent (List.mem_map.mpr ⟨registration, member, same.symm⟩)
    have tail := (ih (renderer.register first).2 later).trans alone
    exact congrArg ((renderer.register first).1 :: ·) tail

theorem registerAll_eq_foldl (registrations : List (Registration ι ω)) :
    (renderer.registerAll registrations).2 =
      registrations.foldl (fun current registration => (current.register registration).2)
        renderer := by
  induction registrations generalizing renderer with
  | nil => rfl
  | cons first rest ih => exact ih (renderer.register first).2

/-- Two orders of the same registrations, for different targets, come to the same renderer. Each
call has the same outcome in both, and what is rendered then is the same, in its text and in
everything that the text refers to, as is the document that the rendering leaves. -/
theorem registrations_in_any_order (left right : List (Registration ι ω))
    (rearranged : left.Perm right) (apart : (left.map Registration.target).Nodup) :
    (renderer.registerAll left).1 =
        left.map (fun registration => (renderer.register registration).1) ∧
      (renderer.registerAll right).1 =
        right.map (fun registration => (renderer.register registration).1) ∧
      (renderer.registerAll left).2 = (renderer.registerAll right).2 ∧
      (renderer.registerAll left).2.render.1.map Issue.compiled =
        (renderer.registerAll right).2.render.1.map Issue.compiled ∧
      (renderer.registerAll left).2.render.2.1.document =
        (renderer.registerAll right).2.render.2.1.document := by
  have apartRight : (right.map Registration.target).Nodup :=
    (rearranged.map Registration.target).nodup_iff.mp apart
  have complete : (renderer.registerAll left).2 = (renderer.registerAll right).2 := by
    rw [registerAll_eq_foldl, registerAll_eq_foldl]
    refine rearranged.foldl_eq' ?_ renderer
    intro first isFirst second isSecond current
    by_cases same : first = second
    · rw [same]
    · refine (current.register_comm ?_).2
      intro sameTarget
      exact same (List.inj_on_of_nodup_map apart isFirst isSecond sameTarget)
  refine ⟨renderer.outcomes_registerAll left apart, renderer.outcomes_registerAll right apartRight,
    complete, ?_, ?_⟩
  · rw [complete]
  · rw [complete]

end Registering

def tapListener : Attachment Json Text :=
  .listen "tap".toList ⟨fun _ _ => "tapped".toList, none⟩

def tappableCard : Renderer Json Text :=
  (register ⟨.ofDocument classyCard, [0], SortedMap.empty, [], none, 0⟩ (.attached 0 tapListener)).2

/-- The title of the label is bound twice, as an attribute and as a property, and there is a named
property of the same name. The taps on the card are listened for already, and there is no node 7. -/
def cardRegistrations : List (Registration Json Text) :=
  [.attached 1 (.bindAttribute "title".toList (fieldProvider "label".toList)),
    .named "title".toList (fieldProvider "heading".toList),
    .attached 1 (.bindProperty "title".toList (fieldProvider "hint".toList)),
    .attached 0 tapListener, .attached 1 tapListener, .attached 0 (.interpolate false),
    .attached 7 tapListener]

theorem card_registrations_reversed :
    cardRegistrations.Perm cardRegistrations.reverse ∧
      (cardRegistrations.map Registration.target).Nodup ∧
      (tappableCard.registerAll cardRegistrations.reverse).1 =
        [.error (.foreignNode 7), .ok (), .ok (), .error (.duplicateListener "tap".toList),
          .ok (), .ok (), .ok ()] ∧
      (tappableCard.registerAll cardRegistrations).2 =
        (tappableCard.registerAll cardRegistrations.reverse).2 := by
  have rearranged : cardRegistrations.Perm cardRegistrations.reverse :=
    (List.reverse_perm _).symm
  have apart : (cardRegistrations.map Registration.target).Nodup := by
    decide +kernel
  obtain ⟨-, outcomes, same, -⟩ :=
    tappableCard.registrations_in_any_order _ _ rearranged apart
  refine ⟨rearranged, apart, outcomes.trans ?_, same⟩
  rfl

end Renderer

end TreeTemplate
