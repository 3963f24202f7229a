import TreeTemplate.Proofs.Template.Cache

/-!
# Calls addressed to a node

A renderer passes a call on to an element at or below a root and refuses it for any other identity.
Behind that, only a second listener for an event fails. A failed call changes nothing but that the
second listener gives the kept result up, so what is rendered afterwards is what it would have been.
-/
set_option autoImplicit false

namespace TreeTemplate

variable {ι ω : Type}

namespace Draft

/-- The edit fails: it adds a listener for an event that the node has one for already. -/
def Repeats (draft : Draft ι ω) (id : NodeId) (edit : NodeEdit ι ω) (reason : TemplateError) :
    Prop :=
  ∃ event listener, edit = .listen event listener ∧ reason = .duplicateListener event ∧
    (draft.metadata.ofNode id).listeners.has event = true

section Edits
variable (draft : Draft ι ω) (id : NodeId)

theorem edit_eq_error_iff (edit : NodeEdit ι ω) (reason : TemplateError) :
    (draft.edit id edit).1 = .error reason ↔ draft.Repeats id edit reason := by
  cases edit with
  | listen event listener =>
    rw [Draft.edit, NodeMetadata.addListener]
    cases repeated : (draft.metadata.ofNode id).listeners.has event with
    | true =>
      constructor
      · intro failed
        exact ⟨event, listener, rfl, (Except.error.inj failed).symm, repeated⟩
      · rintro ⟨own, other, same, rfl, -⟩
        obtain ⟨rfl, -⟩ := NodeEdit.listen.inj same
        rfl
    | false =>
      constructor
      · intro failed
        cases failed
      · rintro ⟨own, other, same, -, isThere⟩
        obtain ⟨rfl, -⟩ := NodeEdit.listen.inj same
        cases repeated.symm.trans isThere
  | _ => simp [Draft.edit, Repeats]

theorem attach_attach (first second : NodeMetadata ι ω) :
    (draft.attach id first).attach id second = draft.attach id second := by
  have metadata : (draft.metadata.insert id first).insert id second =
      draft.metadata.insert id second := by
    apply SortedMap.ext_find?
    intro other
    by_cases same : other = id
    · subst same
      rw [SortedMap.find?_insert_same, SortedMap.find?_insert_same]
    · rw [SortedMap.find?_insert_other _ _ _ _ same, SortedMap.find?_insert_other _ _ _ _ same,
        SortedMap.find?_insert_other _ _ _ _ same]
  exact congrArg (Draft.mk draft.document) metadata

theorem ofNode_touch : (draft.touch id).metadata.ofNode id = draft.metadata.ofNode id :=
  ofNode_insert_same draft.metadata id _

/-- A draft in which the node has an entry is not changed by touching the node. -/
theorem touch_of_find? {own : NodeMetadata ι ω} (found : draft.metadata.find? id = some own) :
    draft.touch id = draft := by
  have metadata : draft.metadata.insert id (draft.metadata.ofNode id) = draft.metadata := by
    apply SortedMap.ext_find?
    intro other
    by_cases same : other = id
    · subst same
      rw [SortedMap.find?_insert_same, Metadata.ofNode, found]
      rfl
    · rw [SortedMap.find?_insert_other _ _ _ _ same]
  exact congrArg (Draft.mk draft.document) metadata

/-- An edit that fails leaves the draft as it is: where there is a listener there is an entry. -/
theorem edit_of_repeats {edit : NodeEdit ι ω} {reason : TemplateError}
    (repeats : draft.Repeats id edit reason) : (draft.edit id edit).2 = draft := by
  obtain ⟨event, listener, rfl, -, repeated⟩ := repeats
  have touched : (draft.edit id (.listen event listener)).2 = draft.touch id := by
    rw [Draft.edit, NodeMetadata.addListener, if_pos repeated]
  rw [touched]
  cases found : draft.metadata.find? id with
  | some own => exact draft.touch_of_find? id found
  | none =>
    rw [Metadata.ofNode, found] at repeated
    cases repeated

/-- An edit attaches something to its node and leaves some document, both by what is attached there
and by the document that it finds. -/
theorem exists_edit_eq (edit : NodeEdit ι ω) (document : Document) (own : NodeMetadata ι ω) :
    ∃ outcome attached changed, ∀ draft : Draft ι ω, draft.document = document →
      draft.metadata.ofNode id = own →
        draft.edit id edit = (outcome, (draft.attach id attached).withDocument changed) := by
  cases edit with
  | interpolate mode =>
    refine ⟨.ok (), { own with interpolation := mode }, document, ?_⟩
    rintro draft rfl rfl
    rfl
  | setAttribute name value =>
    refine ⟨.ok (), { own with attributes := own.attributes.erase name },
      document.setAttribute id name value, ?_⟩
    rintro draft rfl rfl
    rfl
  | setFlag name present =>
    refine ⟨.ok (), { own with attributes := own.attributes.erase name },
      document.setFlag id name present, ?_⟩
    rintro draft rfl rfl
    rfl
  | bindAttribute name provider =>
    refine ⟨.ok (), { own with attributes := own.attributes.insert name provider },
      document.removeAttribute id name, ?_⟩
    rintro draft rfl rfl
    rfl
  | setProperty name value =>
    refine ⟨.ok (), { own with properties := own.properties.erase name },
      document.setProperty id name value, ?_⟩
    rintro draft rfl rfl
    rfl
  | bindProperty name provider =>
    refine ⟨.ok (), { own with properties := own.properties.insert name provider },
      document.removeProperty id name, ?_⟩
    rintro draft rfl rfl
    rfl
  | listen event listener =>
    cases added : own.addListener event listener with
    | ok attached =>
      refine ⟨.ok (), attached, document, ?_⟩
      rintro draft rfl rfl
      rw [Draft.edit, added]
      rfl
    | error reason =>
      refine ⟨.error reason, own, document, ?_⟩
      rintro draft rfl rfl
      rw [Draft.edit, added]
      rfl

/-- Touching a node makes no difference for an edit of it. -/
theorem touch_edit (edit : NodeEdit ι ω) :
    (draft.touch id).edit id edit = draft.edit id edit := by
  obtain ⟨outcome, attached, changed, edited⟩ :=
    exists_edit_eq id edit draft.document (draft.metadata.ofNode id)
  rw [edited draft rfl rfl, edited (draft.touch id) rfl (draft.ofNode_touch id), touch,
    attach_attach]

/-- An edit has touched its node. -/
theorem edit_touch (edit : NodeEdit ι ω) :
    (draft.edit id edit).2.touch id = (draft.edit id edit).2 := by
  obtain ⟨outcome, attached, changed, edited⟩ :=
    exists_edit_eq id edit draft.document (draft.metadata.ofNode id)
  rw [edited draft rfl rfl]
  exact touch_of_find? _ id (SortedMap.find?_insert_same draft.metadata id attached)

/-- In a row of edits, each is made in the draft that those before it leave, whether or not they
failed. -/
theorem editAll_at (edits : List (NodeEdit ι ω)) (position : Nat) (edit : NodeEdit ι ω)
    (isThere : edits[position]? = some edit) :
    let before := (draft.editAll id (edits.take position)).2
    (draft.editAll id edits).1[position]? = some (before.edit id edit).1 ∧
      (draft.editAll id (edits.take (position + 1))).2 = (before.edit id edit).2 := by
  induction edits generalizing draft position with
  | nil => cases isThere
  | cons first rest ih =>
    cases position with
    | zero =>
      obtain rfl := Option.some.inj isThere
      have same := draft.touch_edit id first
      exact ⟨congrArg some (congrArg Prod.fst same).symm,
        (draft.edit_touch id first).trans (congrArg Prod.snd same).symm⟩
    | succ position => exact ih (draft.edit id first).2 position isThere

end Edits

end Draft

namespace Renderer

def Reached (renderer : Renderer ι ω) (id : NodeId) : Prop :=
  (∃ root ∈ renderer.roots, renderer.document.Reaches root id) ∧
    renderer.document.hasNode id = true

inductive Refuses (renderer : Renderer ι ω) (id : NodeId) : TemplateError → Prop where
  | foreignNode (unreached : ¬renderer.Reached id) : Refuses renderer id (.foreignNode id)
  | textNode (reached : renderer.Reached id) (isText : renderer.document.isText id = true) :
      Refuses renderer id (.textNode id)

structure AnswersLike (renderer other : Renderer ι ω) : Prop where
  rendered : renderer.render.1.map Issue.compiled = other.render.1.map Issue.compiled
  written : renderer.templateText.1 = other.templateText.1

section Calls
variable (renderer : Renderer ι ω) (id : NodeId)

theorem refusal?_eq_some_iff (reason : TemplateError) :
    renderer.refusal? id = some reason ↔ renderer.Refuses id reason := by
  have reached : (renderer.roots.any fun root => renderer.document.contains root id) = true ↔
      renderer.Reached id := renderer.any_contains_iff id
  rw [refusal?]
  constructor
  · intro refused
    split at refused
    · rename_i foreign
      obtain rfl := Option.some.inj refused
      exact .foreignNode fun isReached => by simp [reached.mpr isReached] at foreign
    · rename_i contained
      split at refused
      · rename_i isText
        obtain rfl := Option.some.inj refused
        exact .textNode (reached.mp (by simpa using contained)) isText
      · cases refused
  · intro refuses
    cases refuses with
    | foreignNode unreached => simp [Bool.eq_false_iff.mpr (mt reached.mp unreached)]
    | textNode isReached isText => simp [reached.mpr isReached, isText]

theorem refuses_iff_not_accepts :
    (∃ reason, renderer.Refuses id reason) ↔ ¬renderer.Accepts id := by
  simp only [← refusal?_eq_some_iff, ← refusal?_eq_none_iff, ← ne_eq, Option.ne_none_iff_exists']

theorem editNode_eq_error_iff (edits : List (NodeEdit ι ω)) (reason : TemplateError) :
    (renderer.editNode id edits).1 = .error reason ↔ renderer.Refuses id reason := by
  rw [← refusal?_eq_some_iff, editNode]
  cases renderer.refusal? id with
  | none => simp
  | some own => simp

theorem change_eq_error_iff (edit : NodeEdit ι ω) (reason : TemplateError) :
    (renderer.change id edit).1 = .error reason ↔
      renderer.Refuses id reason ∨
        renderer.Accepts id ∧ renderer.draft.Repeats id edit reason := by
  rw [← refusal?_eq_some_iff, ← refusal?_eq_none_iff, change, ← Draft.edit_eq_error_iff]
  cases renderer.refusal? id with
  | none => simp
  | some own => simp

/-- A refused call does nothing. -/
theorem calls_of_not_accepts (refused : ¬renderer.Accepts id) (edit : NodeEdit ι ω)
    (edits : List (NodeEdit ι ω)) :
    (renderer.change id edit).2 = renderer ∧ (renderer.editNode id edits).2 = renderer := by
  obtain ⟨reason, refuses⟩ := (renderer.refuses_iff_not_accepts id).mpr refused
  rw [change, editNode, (renderer.refusal?_eq_some_iff id reason).mpr refuses]
  exact ⟨rfl, rfl⟩

section Accepted
variable {renderer id} (accepts : renderer.Accepts id)
include accepts

theorem Accepts.change_eq (edit : NodeEdit ι ω) :
    renderer.change id edit =
      ((renderer.draft.edit id edit).1, renderer.withDraft (renderer.draft.edit id edit).2) := by
  rw [change, (renderer.refusal?_eq_none_iff id).mpr accepts]

theorem Accepts.editNode_eq (edits : List (NodeEdit ι ω)) :
    renderer.editNode id edits =
      (.ok (renderer.draft.editAll id edits).1,
        renderer.withDraft (renderer.draft.editAll id edits).2) := by
  rw [editNode, (renderer.refusal?_eq_none_iff id).mpr accepts]

/-- An edit in a row fails if it repeats a listener that is there by then, and could as well have
been left out. -/
theorem Accepts.editNode_at (edits : List (NodeEdit ι ω)) (position : Nat) (edit : NodeEdit ι ω)
    (isThere : edits[position]? = some edit) :
    let before := (renderer.editNode id (edits.take position)).2
    ∃ outcomes outcome, (renderer.editNode id edits).1 = .ok outcomes ∧
      outcomes[position]? = some outcome ∧
        ∀ reason, (outcome = .error reason ↔ before.draft.Repeats id edit reason) ∧
          (outcome = .error reason →
            (renderer.editNode id (edits.take (position + 1))).2 = before) := by
  intro before
  obtain ⟨outcome, after⟩ := renderer.draft.editAll_at id edits position edit isThere
  have draft : before.draft = (renderer.draft.editAll id (edits.take position)).2 := by
    rw [show before = _ from congrArg Prod.snd (accepts.editNode_eq (edits.take position))]
    rfl
  rw [← draft] at outcome after
  refine ⟨(renderer.draft.editAll id edits).1, (before.draft.edit id edit).1, ?_, outcome, ?_⟩
  · rw [accepts.editNode_eq]
  · intro reason
    rw [Draft.edit_eq_error_iff]
    refine ⟨Iff.rfl, ?_⟩
    intro repeats
    rw [accepts.editNode_eq, after, before.draft.edit_of_repeats id repeats, draft]
    exact (congrArg Prod.snd (accepts.editNode_eq (edits.take position))).symm

end Accepted

end Calls

/-- What a consistent renderer answers with an error is what its next compile fails for. -/
theorem Consistent.render_eq_error_iff {renderer : Renderer ι ω}
    (consistent : renderer.Consistent) (reason : TemplateError) :
    renderer.render.1 = .error reason ↔ renderer.compilation.fault? = some reason := by
  cases isKept : renderer.kept with
  | none => exact Renderer.render_eq_error_iff isKept reason
  | some issue =>
    obtain ⟨source, agrees, compiles⟩ := consistent.current issue isKept
    have same : renderer.compilation.fault? =
        (compile ⟨renderer.metadata, renderer.policies⟩ source renderer.roots
          renderer.named).fault? :=
      (compile_fault?_agrees ⟨renderer.metadata, renderer.policies⟩ renderer.roots renderer.named
        agrees).symm
    have sound : renderer.compilation.fault? = none := by
      rw [same, Compilation.fault?]
      split
      · rfl
      · rename_i own fails
        cases fails.symm.trans compiles
    rw [render_of_kept isKept, sound]
    simp

theorem Consistent.answersFor_document {renderer : Renderer ι ω}
    (consistent : renderer.Consistent) (ignores : renderer.IgnoresBound) :
    renderer.AnswersFor renderer.document := by
  obtain ⟨source, agrees, answers⟩ := consistent.answersFor
  exact answers.of_agrees ignores agrees

section WithoutKept
variable {renderer : Renderer ι ω} (consistent : renderer.Consistent)
include consistent

theorem Consistent.render_eq_error_iff_without_kept (reason : TemplateError) :
    (renderer.withDraft renderer.draft).render.1 = .error reason ↔
      renderer.render.1 = .error reason := by
  rw [consistent.render_eq_error_iff]
  exact Renderer.render_eq_error_iff rfl reason

theorem Consistent.renderedProperties_without_kept :
    (renderer.withDraft renderer.draft).renderedProperties = renderer.renderedProperties := by
  have without : (renderer.withDraft renderer.draft).Consistent := consistent_of_none rfl
  exact without.renderedProperties_eq.trans consistent.renderedProperties_eq.symm

/-- A renderer that gives its kept result up compiles again, and answers as it would have if no
policy looks at the literals that the kept compile has dropped. -/
theorem Consistent.answersLike_without_kept (ignores : renderer.IgnoresBound) :
    (renderer.withDraft renderer.draft).AnswersLike renderer := by
  have isConsistent : (renderer.withDraft renderer.draft).Consistent := consistent_of_none rfl
  have without := isConsistent.answersFor_document ignores
  have kept := consistent.answersFor_document ignores
  exact ⟨without.rendered.trans kept.rendered.symm, without.written.trans kept.written.symm⟩

end WithoutKept

/-! ## Calls -/

/-- After any operations on a renderer, calls addressed to an identity are refused exactly if it is
not that of an element at or below a root. They are refused as foreign before they are refused as a
text, and then nothing happens at all. Of the other calls those fail that add a second listener for
an event. They leave everything but the kept result. Without it the next rendering fails for the same
reason as it would have, or binds the same properties; it is the same altogether if no policy looks at
literals that a binding replaces. In a row of edits such a call could as well have been left out. -/
theorem calls_fail_cleanly (document : Document) (roots : List NodeId) (initial : Renderer ι ω)
    (built : ofDocument document roots = .ok initial) (operations : List (Operation ι ω))
    (id : NodeId) :
    let renderer := initial.performAll operations
    (∀ ancestor, renderer.document.contains ancestor id = true ↔
        renderer.document.Reaches ancestor id ∧ renderer.document.hasNode id = true) ∧
      ((∃ reason, renderer.Refuses id reason) ↔ ¬renderer.Accepts id) ∧
      (∀ edits reason,
        (renderer.editNode id edits).1 = .error reason ↔ renderer.Refuses id reason) ∧
      (∀ edit reason, (renderer.change id edit).1 = .error reason ↔
        renderer.Refuses id reason ∨
          renderer.Accepts id ∧ renderer.draft.Repeats id edit reason) ∧
      (¬renderer.Accepts id → ∀ edit edits,
        (renderer.change id edit).2 = renderer ∧ (renderer.editNode id edits).2 = renderer) ∧
      (renderer.Accepts id → ∀ edit reason, renderer.draft.Repeats id edit reason →
        (renderer.change id edit).2 = { renderer with kept := none } ∧
          (∀ failure, (renderer.change id edit).2.render.1 = .error failure ↔
            renderer.render.1 = .error failure) ∧
          (renderer.change id edit).2.renderedProperties = renderer.renderedProperties ∧
          (renderer.IgnoresBound → (renderer.change id edit).2.AnswersLike renderer)) ∧
      (renderer.Accepts id → ∀ edits position edit, edits[position]? = some edit →
        let before := (renderer.editNode id (edits.take position)).2
        ∃ outcomes outcome, (renderer.editNode id edits).1 = .ok outcomes ∧
          outcomes[position]? = some outcome ∧
            ∀ reason, (outcome = .error reason ↔ before.draft.Repeats id edit reason) ∧
              (outcome = .error reason →
                (renderer.editNode id (edits.take (position + 1))).2 = before)) := by
  intro renderer
  have consistent : renderer.Consistent := (consistent_ofDocument built).performAll operations
  refine ⟨Document.contains_iff, renderer.refuses_iff_not_accepts id,
    renderer.editNode_eq_error_iff id, renderer.change_eq_error_iff id,
    renderer.calls_of_not_accepts id, ?_, fun accepts => accepts.editNode_at⟩
  intro accepts edit reason repeats
  have after : (renderer.change id edit).2 = renderer.withDraft renderer.draft := by
    rw [accepts.change_eq, renderer.draft.edit_of_repeats id repeats]
  rw [after]
  exact ⟨rfl, consistent.render_eq_error_iff_without_kept, consistent.renderedProperties_without_kept,
    consistent.answersLike_without_kept⟩

def greetingPanel : Document :=
  (Document.empty.build (.element "div".toList [] []
    [.element "label".toList [] [] [], .text "hello".toList])).2

def greetingRenderer : Renderer Json Text :=
  ⟨.ofDocument greetingPanel, [0], SortedMap.empty, [], none, 0⟩

def tapped : NodeEdit Json Text :=
  .listen "tap".toList ⟨fun _ _ => "tapped".toList, none⟩

/-- Behind a rendering, a second listener for the taps on the label is refused, and so are an unknown
node and the text. What is rendered then is what has been rendered before. -/
theorem greeting_calls_fail_cleanly :
    let renderer := greetingRenderer.performAll [.change 1 tapped, .render]
    ofDocument greetingPanel [0] = .ok greetingRenderer ∧
      (renderer.editNode 7 []).1 = .error (.foreignNode 7) ∧
      (renderer.editNode 2 []).1 = .error (.textNode 2) ∧
      (renderer.change 1 tapped).1 = .error (.duplicateListener "tap".toList) ∧
      (renderer.change 1 tapped).2.render.1.map Issue.compiled =
        renderer.render.1.map Issue.compiled := by
  intro renderer
  have built : ofDocument greetingPanel [0] = .ok greetingRenderer := rfl
  have calls := calls_fail_cleanly greetingPanel [0] greetingRenderer built
    [.change 1 tapped, .render]
  obtain ⟨-, -, foreign, -⟩ := calls 7
  obtain ⟨-, -, text, -⟩ := calls 2
  obtain ⟨-, -, -, fails, -, failed, -⟩ := calls 1
  have unreached : ¬renderer.Reached 7 := by
    rintro ⟨-, isNode⟩
    exact absurd isNode (by decide +kernel)
  have reached : renderer.Reached 2 :=
    ⟨⟨0, List.mem_singleton.mpr rfl, .single (by decide +kernel)⟩, by decide +kernel⟩
  have accepts : renderer.Accepts 1 := by
    rw [← refusal?_eq_none_iff]
    decide +kernel
  have repeats : renderer.draft.Repeats 1 tapped (.duplicateListener "tap".toList) :=
    ⟨_, _, rfl, rfl, by decide +kernel⟩
  have ignores : renderer.IgnoresBound := by
    intro policy member
    cases member
  exact ⟨built, (foreign [] _).mpr (.foreignNode unreached),
    (text [] _).mpr (.textNode reached (by decide +kernel)),
    (fails tapped _).mpr (.inr ⟨accepts, repeats⟩),
    ((failed accepts tapped _ repeats).2.2.2 ignores).rendered⟩

/-- The kept result listens for taps on the panel, for the sake of the label's title. A second listener
for the taps on the label is refused, and makes the next rendering miss the title. -/
theorem peeking_policy_recompiles :
    let renderer := panelRenderer.performAll (.change 1 tapped :: panelOperations peekingPolicy)
    ofDocument titledPanel [0] = .ok panelRenderer ∧ renderer.document.AcyclicBelow [0] ∧
      (renderer.change 1 tapped).1 = .error (.duplicateListener "tap".toList) ∧
      (renderer.change 1 tapped).2.render.1.map (fun issue => issue.compiled.template) ≠
        renderer.render.1.map fun issue => issue.compiled.template := by
  intro renderer
  have acyclic : renderer.document.AcyclicBelow [0] :=
    Document.acyclicBelow_of_forward [0] (by decide +kernel)
  have accepts : renderer.Accepts 1 := by
    rw [← refusal?_eq_none_iff]
    decide +kernel
  have repeats : renderer.draft.Repeats 1 tapped (.duplicateListener "tap".toList) :=
    ⟨_, _, rfl, rfl, by decide +kernel⟩
  have apart : ((renderer.change 1 tapped).2.render.1.map
      fun issue => issue.compiled.template).toOption ≠
        (renderer.render.1.map fun issue => issue.compiled.template).toOption := by
    decide +kernel
  exact ⟨rfl, acyclic, (renderer.change_eq_error_iff 1 tapped _).mpr (.inr ⟨accepts, repeats⟩),
    mt (congrArg Except.toOption) apart⟩

end Renderer

end TreeTemplate
