import TreeTemplate.Proofs.Template.Cache
import TreeTemplate.Proofs.Template.Disabled
import TreeTemplate.Proofs.Template.Overrides

/-!
# Switching interpolation off

A renderer that is told to disable interpolation gives every root an override, which no later
operation takes back. As long as no element is enabled again, everything inside the roots is written
without interpolation: a text that could be taken for code is a literal there, and any other text is
escaped. A root that is itself a text has no element around it, and goes on being interpolated.
-/
set_option autoImplicit false

namespace TreeTemplate

open Placeholder

variable {ι ω : Type}

/-- No part of the text is evaluated: nothing in it opens a placeholder, or it is one placeholder that
holds a backtick literal without placeholders. -/
def IsInactive (text : Text) : Prop :=
  IsData text ∨
    ∃ items, IsRow true items ∧ bodies items = [] ∧
      text = placeholder (Filling.literal (sources items)).body

theorem encodeText_off (content : Text) :
    encodeText false content =
      if looksLikeCode content then encodeLiteral content else escapeMarkup content := by
  rw [encodeText, looksLikeCode]
  cases opens : Text.occurs placeholderOpening content with
  | true => rfl
  | false =>
    cases content.contains '\x60' with
    | true => rfl
    | false => exact encodeCharacterData_of_not_occurs content opens

theorem isInactive_encodeText_off (content : Text) : IsInactive (encodeText false content) := by
  rw [encodeText_off]
  split
  · have row := isRow_literalItems content
    refine Or.inr ⟨literalItems content, row, bodies_literalItems content, ?_⟩
    rw [encodeLiteral_eq, sources_literalItems]
  · rename_i safe
    have plain : looksLikeCode content = false := by simpa using safe
    have isData := isData_encodeCharacterData content plain
    rw [looksLikeCode, Bool.or_eq_false_iff] at plain
    rw [encodeCharacterData_of_not_occurs content plain.1] at isData
    exact Or.inl isData

theorem count_flatMap_of_count_eq {image : Char → Text} {character : Char}
    (same : ∀ other, (image other).count character = [other].count character) (text : Text) :
    (text.flatMap image).count character = text.count character := by
  induction text with
  | nil => rfl
  | cons other rest ih =>
    rw [List.flatMap_cons, List.count_append, ih, same, ← List.count_append, List.singleton_append]

theorem count_escapeMarkup (content : Text) :
    (escapeMarkup content).count '$' = content.count '$' := by
  rw [escapeMarkup, Text.replaceAll_singleton, Text.replaceAll_singleton,
    count_flatMap_of_count_eq, count_flatMap_of_count_eq]
  · intro other
    split
    · rename_i isAmpersand
      subst isAmpersand
      decide
    · rfl
  · intro other
    split
    · rename_i isBracket
      subst isBracket
      decide
    · rfl

theorem count_encodeCharacterData (content : Text) :
    (encodeCharacterData content).count '$' = content.count '$' := by
  rw [encodeCharacterData.eq_def]
  split
  · rw [count_escapeMarkup]
    exact (List.count_cons_of_ne (by decide)).symm
  · rfl
  · exact count_escapeMarkup content

theorem count_encodeLiteral (content : Text) :
    (encodeLiteral content).count '$' = content.count '$' + 1 := by
  have quoted : (content.flatMap literalCharacter).count '$' = content.count '$' := by
    refine count_flatMap_of_count_eq ?_ content
    intro other
    rw [literalCharacter]
    split
    · exact List.count_cons_of_ne (by decide)
    · rfl
  have opening : literalOpening.count '$' = 1 := by decide
  have closing : literalClosing.count '$' = 0 := by decide
  rw [encodeLiteral, List.count_append, List.count_append, quoted, opening, closing]
  omega

/-- With interpolation a text is written in the same way exactly if it could not be taken for code.
A literal has one dollar sign more than the text. -/
theorem encodeText_on_eq_off_iff (content : Text) :
    encodeText true content = encodeText false content ↔ looksLikeCode content = false := by
  have on : encodeText true content = encodeCharacterData content := rfl
  rw [on, encodeText_off]
  cases code : looksLikeCode content with
  | true =>
    refine ⟨fun same => ?_, fun impossible => absurd impossible Bool.noConfusion⟩
    have counts := congrArg (List.count '$') same
    rw [if_pos rfl, count_encodeCharacterData, count_encodeLiteral] at counts
    omega
  | false =>
    rw [looksLikeCode, Bool.or_eq_false_iff] at code
    rw [encodeCharacterData_of_not_occurs content code.1]
    simp

def Metadata.KeepsOverrides (before after : Metadata ι ω) : Prop :=
  ∀ id, before.interpolation id ≠ .inherit → after.interpolation id ≠ .inherit

namespace Metadata.KeepsOverrides

theorem refl (metadata : Metadata ι ω) : metadata.KeepsOverrides metadata :=
  fun _ overridden => overridden

theorem trans {before between after : Metadata ι ω} (first : before.KeepsOverrides between)
    (second : between.KeepsOverrides after) : before.KeepsOverrides after :=
  fun id overridden => second id (first id overridden)

theorem insert {metadata : Metadata ι ω} {id : NodeId} {own : NodeMetadata ι ω}
    (keeps : metadata.interpolation id ≠ .inherit → own.interpolation ≠ .inherit) :
    metadata.KeepsOverrides (SortedMap.insert metadata id own) := by
  intro other overridden
  by_cases same : other = id
  · subst same
    rw [Metadata.interpolation, ofNode_insert_same]
    exact keeps overridden
  · rw [Metadata.interpolation, ofNode_insert_other metadata own same]
    exact overridden

end Metadata.KeepsOverrides

/-- An edit keeps every override, unless it is the one that hands the mode back. -/
theorem keepsOverrides_edit (draft : Draft ι ω) (id : NodeId) (edit : NodeEdit ι ω)
    (explicit : edit ≠ .interpolate .inherit) :
    draft.metadata.KeepsOverrides (draft.edit id edit).2.metadata := by
  cases edit with
  | interpolate mode =>
    have isMode : mode ≠ .inherit := by
      rintro rfl
      exact explicit rfl
    exact Metadata.KeepsOverrides.insert fun _ => isMode
  | listen event listener =>
    rw [Draft.edit, NodeMetadata.addListener]
    split
    · rename_i metadata attached
      split at attached
      · cases attached
      · obtain rfl := Except.ok.inj attached
        exact Metadata.KeepsOverrides.insert fun overridden => overridden
    · exact Metadata.KeepsOverrides.insert fun overridden => overridden
  | _ => exact Metadata.KeepsOverrides.insert fun overridden => overridden

theorem keepsOverrides_editAll (id : NodeId) (edits : List (NodeEdit ι ω)) (draft : Draft ι ω)
    (explicit : .interpolate .inherit ∉ edits) :
    draft.metadata.KeepsOverrides (draft.editAll id edits).2.metadata := by
  induction edits generalizing draft with
  | nil => exact Metadata.KeepsOverrides.insert fun overridden => overridden
  | cons edit rest ih =>
    rw [List.mem_cons, not_or] at explicit
    exact (keepsOverrides_edit draft id edit (Ne.symm explicit.1)).trans (ih _ explicit.2)

def Operation.edits : Operation ι ω → List (NodeEdit ι ω)
  | .change _ edit => [edit]
  | .editNode _ edits => edits
  | _ => []

namespace Renderer

theorem roots_perform (renderer : Renderer ι ω) (operation : Operation ι ω) :
    (renderer.perform operation).roots = renderer.roots := by
  cases operation with
  | change id edit =>
    rcases renderer.change_cases id edit with ⟨-, draft, same⟩ | ⟨-, same⟩ <;> rw [perform, same]
    rfl
  | editNode id edits =>
    rcases renderer.editNode_cases id edits with ⟨-, draft, same⟩ | ⟨-, same⟩ <;> rw [perform, same]
    rfl
  | templateText =>
    rw [perform, templateText]
    split <;> rfl
  | render =>
    rw [perform, render]
    split
    · rfl
    · dsimp only
      split <;> rfl
  | _ => rfl

theorem interpolation_foldl_disable (roots : List NodeId) (draft : Draft ι ω) (id : NodeId) :
    (roots.foldl (fun current root => (current.edit root (.interpolate .disabled)).2)
        draft).metadata.interpolation id =
      if id ∈ roots then .disabled else draft.metadata.interpolation id := by
  induction roots generalizing draft with
  | nil => simp
  | cons root rest ih =>
    have first : (draft.edit root (.interpolate .disabled)).2.metadata =
        draft.metadata.override root .disabled := rfl
    rw [List.foldl_cons, ih, first]
    by_cases same : id = root
    · subst same
      simp [interpolation_override_same]
    · simp [interpolation_override_other _ _ _ same, same]

/-- Disabling interpolation overrides the mode of every root, and no other mode. -/
theorem interpolation_disableInterpolation (renderer : Renderer ι ω) (id : NodeId) :
    renderer.disableInterpolation.metadata.interpolation id =
      if id ∈ renderer.roots then .disabled else renderer.metadata.interpolation id :=
  interpolation_foldl_disable renderer.roots renderer.draft id

theorem keepsOverrides_perform (renderer : Renderer ι ω) (operation : Operation ι ω)
    (explicit : .interpolate .inherit ∉ operation.edits) :
    renderer.metadata.KeepsOverrides (renderer.perform operation).metadata := by
  cases operation with
  | disableInterpolation =>
    intro id overridden
    rw [perform, interpolation_disableInterpolation]
    split
    · exact Interpolation.noConfusion
    · exact overridden
  | change id edit =>
    rw [perform, change]
    split
    · exact Metadata.KeepsOverrides.refl _
    · refine keepsOverrides_edit renderer.draft id edit ?_
      rintro rfl
      exact explicit List.mem_cons_self
  | editNode id edits =>
    rw [perform, editNode]
    split
    · exact Metadata.KeepsOverrides.refl _
    · exact keepsOverrides_editAll id edits renderer.draft explicit
  | templateText =>
    rw [perform, metadata_templateText]
    exact Metadata.KeepsOverrides.refl _
  | render =>
    rw [perform, metadata_render]
    exact Metadata.KeepsOverrides.refl _
  | _ => exact Metadata.KeepsOverrides.refl _

theorem performAll_append (renderer : Renderer ι ω) (first second : List (Operation ι ω)) :
    renderer.performAll (first ++ second) = (renderer.performAll first).performAll second :=
  List.foldl_append

theorem keepsOverrides_performAll (renderer : Renderer ι ω) (operations : List (Operation ι ω))
    (explicit : ∀ operation ∈ operations, .interpolate .inherit ∉ operation.edits) :
    (renderer.performAll operations).roots = renderer.roots ∧
      renderer.metadata.KeepsOverrides (renderer.performAll operations).metadata := by
  induction operations generalizing renderer with
  | nil => exact ⟨rfl, Metadata.KeepsOverrides.refl _⟩
  | cons operation rest ih =>
    rw [List.forall_mem_cons] at explicit
    obtain ⟨roots, keeps⟩ := ih (renderer.perform operation) explicit.2
    exact ⟨roots.trans (roots_perform renderer operation),
      (keepsOverrides_perform renderer operation explicit.1).trans keeps⟩

/-- Once interpolation is disabled, every root keeps an override, whatever its kind. -/
theorem roots_overridden (renderer : Renderer ι ω) (after : List (Operation ι ω))
    (explicit : ∀ operation ∈ after, .interpolate .inherit ∉ operation.edits) :
    let left := renderer.disableInterpolation.performAll after
    ∀ root ∈ left.roots, left.metadata.interpolation root ≠ .inherit := by
  intro left root isRoot
  obtain ⟨roots, keeps⟩ := keepsOverrides_performAll renderer.disableInterpolation after explicit
  refine keeps root ?_
  have isOld : root ∈ renderer.roots := by
    change root ∈ (renderer.disableInterpolation.performAll after).roots at isRoot
    rwa [roots] at isRoot
  rw [interpolation_disableInterpolation, if_pos isOld]
  exact Interpolation.noConfusion

end Renderer

/-! ## What is written -/

/-- Where every root has an override and no element is enabled, the mode is off inside the roots. -/
theorem sameModes_off {document : Document} {roots : List NodeId} {modes : NodeId → Interpolation}
    (overridden : ∀ root ∈ roots, modes root ≠ .inherit)
    (notEnabled : ∀ root ∈ roots, ∀ id, document.Reaches root id →
      (document.element? id).isSome = true → modes id ≠ .enabled) :
    document.SameModes roots (nearestMode modes) List.isEmpty := by
  intro id outer trail isElement
  obtain ⟨root, isRoot, reaches⟩ := trail.reached
  have off : modes id ≠ .enabled := notEnabled root isRoot id reaches isElement
  rw [nearestMode_cons, List.isEmpty_cons]
  clear root isRoot reaches
  induction outer generalizing id with
  | nil =>
    have isOverridden : modes id ≠ .inherit := overridden id trail.follows
    refine resolve_eq_false off (Or.inr ?_)
    cases mode : modes id with
    | inherit => exact absurd mode isOverridden
    | enabled => exact absurd mode off
    | disabled => rfl
  | cons parent outer ih =>
    obtain ⟨root, isRoot, reaches⟩ := trail.outer.reached
    refine resolve_eq_false off (Or.inl ?_)
    rw [nearestMode_cons]
    exact ih parent trail.outer trail.isElement
      (notEnabled root isRoot parent reaches trail.isElement)

namespace Renderer

/-- Once interpolation is disabled and as long as no element is enabled again, what a renderer answers
is composed with interpolation off inside the roots, and on for a root that is a text. A text inside
is a literal if it could be taken for code and escaped otherwise, and no part of it is evaluated. A
root that is a text is written so only if it could not be taken for code. -/
theorem disabled_rendering_composes (document : Document) (roots : List NodeId)
    (initial : Renderer ι ω) (built : ofDocument document roots = .ok initial)
    (before after : List (Operation ι ω))
    (explicit : ∀ operation ∈ after, .interpolate .inherit ∉ operation.edits) :
    let renderer := initial.performAll (before ++ .disableInterpolation :: after)
    ((∀ root ∈ renderer.roots, ∀ id, renderer.document.Reaches root id →
        (renderer.document.element? id).isSome = true →
        renderer.metadata.interpolation id ≠ .enabled) →
      ∀ issue, renderer.render.1 = .ok issue →
        ∃ body, issue.compiled.template = body ++ ['\n'] ∧
          renderer.document.Composes
            (Surroundings.manner ⟨renderer.metadata, renderer.policies⟩ List.isEmpty)
            [] renderer.roots body) ∧
      ∀ content,
        encodeText false content =
            (if looksLikeCode content then encodeLiteral content else escapeMarkup content) ∧
          IsInactive (encodeText false content) ∧
          (encodeText true content = encodeText false content ↔ looksLikeCode content = false) := by
  intro renderer
  refine ⟨?_, fun content => ⟨encodeText_off content, isInactive_encodeText_off content,
    encodeText_on_eq_off_iff content⟩⟩
  intro notEnabled issue rendered
  have parted : renderer =
      ((initial.performAll before).disableInterpolation).performAll after :=
    performAll_append initial before _
  have overridden : ∀ root ∈ renderer.roots, renderer.metadata.interpolation root ≠ .inherit := by
    rw [parted]
    exact roots_overridden (initial.performAll before) after explicit
  have consistent : renderer.Consistent := (consistent_ofDocument built).performAll _
  obtain ⟨source, agrees, answers⟩ := consistent.answersFor
  have current := answers.rendered
  rw [rendered] at current
  obtain ⟨body, written, composes⟩ := compile_composes current.symm
  have here := composes.agrees agrees
  exact ⟨body, written, here.sameModes (sameModes_off overridden notEnabled) rfl
    Document.Trail.outside (List.Subset.refl _)⟩

/-- A section with a paragraph, and a text beside it. -/
def sectionAndText : Document :=
  (Document.empty.buildAll
    [.element "section".toList [("title".toList, ['$', '\x7b', 't', '\x7d'])] []
        [.text ['$', '\x7b', 'a', '\x7d'], .element "p".toList [] [] [.text "x & y".toList]],
      .text ['$', '\x7b', 'b', '\x7d']]).2

def sectionRenderer : Renderer Json Text :=
  ⟨.ofDocument sectionAndText, [0, 4], SortedMap.empty, [], none, 0⟩

def sectionChanges : List (Operation Json Text) :=
  [.change 2 (.interpolate .disabled), .render, .change 0 (.setFlag "hidden".toList true)]

/-- The paragraph was enabled before interpolation was disabled, and is not afterwards. -/
theorem section_composes :
    let renderer := sectionRenderer.performAll
      ([.change 2 (.interpolate .enabled)] ++ .disableInterpolation :: sectionChanges)
    ofDocument sectionAndText [0, 4] = .ok sectionRenderer ∧
      (∀ operation ∈ sectionChanges, .interpolate .inherit ∉ operation.edits) ∧
      (∀ root ∈ renderer.roots, ∀ id, renderer.document.Reaches root id →
        (renderer.document.element? id).isSome = true →
        renderer.metadata.interpolation id ≠ .enabled) ∧
      ∃ issue body, renderer.render.1 = .ok issue ∧ issue.compiled.template = body ++ ['\n'] ∧
        renderer.document.Composes
          (Surroundings.manner ⟨renderer.metadata, renderer.policies⟩ List.isEmpty)
          [] renderer.roots body := by
  intro renderer
  have built : ofDocument sectionAndText [0, 4] = .ok sectionRenderer := rfl
  have explicit : ∀ operation ∈ sectionChanges, .interpolate .inherit ∉ operation.edits := by
    simp [sectionChanges, Operation.edits]
  have modes : ∀ id < renderer.document.size, renderer.metadata.interpolation id ≠ .enabled := by
    decide +kernel
  have notEnabled : ∀ root ∈ renderer.roots, ∀ id, renderer.document.Reaches root id →
      (renderer.document.element? id).isSome = true →
      renderer.metadata.interpolation id ≠ .enabled := by
    intro root isRoot id reaches isElement
    exact modes id (of_decide_eq_true (Document.hasNode_of_isElement isElement))
  have succeeds : renderer.render.1.toBool = true := by
    decide +kernel
  obtain ⟨issue, rendered⟩ := exists_ok succeeds
  obtain ⟨composes, -⟩ := disabled_rendering_composes sectionAndText [0, 4] sectionRenderer built
    [.change 2 (.interpolate .enabled)] sectionChanges explicit
  obtain ⟨body, written, composed⟩ := composes notEnabled issue rendered
  exact ⟨built, explicit, notEnabled, issue, body, rendered, written, composed⟩

def itemText : Document :=
  (Document.empty.createText "$\x7bitem.x\x7d".toList).2

def itemRenderer : Renderer Json Text :=
  ⟨.ofDocument itemText, [0], SortedMap.empty, [], none, 0⟩

/-- A text that is a root stays as it is, although interpolation is disabled on every root and no
element is enabled: its placeholder is not written as a literal. -/
theorem text_root_stays_active :
    let renderer := itemRenderer.disableInterpolation
    ofDocument itemText [0] = .ok itemRenderer ∧
      renderer.document.AcyclicBelow renderer.roots ∧
      (∀ id, (renderer.document.element? id).isSome = true →
        renderer.metadata.interpolation id ≠ .enabled) ∧
      renderer.metadata.interpolation 0 = .disabled ∧
      (renderer.render.1.toOption.map fun issue => issue.compiled.template) =
        some (padding 0 ++ "$\x7bitem.x\x7d\n".toList) ∧
      encodeText false "$\x7bitem.x\x7d".toList =
        "$\x7b\x60\\$\x7bitem.x\x7d\x60\x7d".toList := by
  intro renderer
  have modes : ∀ id < renderer.document.size, renderer.metadata.interpolation id ≠ .enabled := by
    decide +kernel
  refine ⟨rfl, Document.acyclicBelow_of_forward _ (by decide +kernel), ?_, by decide +kernel,
    by decide +kernel, by decide +kernel⟩
  intro id isElement
  exact modes id (of_decide_eq_true (Document.hasNode_of_isElement isElement))

end Renderer

end TreeTemplate
