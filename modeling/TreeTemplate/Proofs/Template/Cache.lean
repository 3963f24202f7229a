import TreeTemplate.Proofs.Template.Visiting
import TreeTemplate.Template.Renderer

/-!
# The kept result

A renderer answers from the result that it kept, and yet always as a fresh compiler would. The
invariant says that compiling the present draft comes to the kept result, up to literals that a
binding replaces: an operation that could change what a compile comes to gives the result up, and the
others leave a draft that differs only in such literals, which no compile reads.
-/
set_option autoImplicit false

namespace TreeTemplate

variable {ι ω : Type}

inductive Operation (ι ω : Type) where
  | changeDocument (change : Document → Document)
  | addProperty (name : Text) (provider : Provider ι)
  | addPolicy (policy : ActivationPolicy ι ω)
  | disableInterpolation
  | change (id : NodeId) (edit : NodeEdit ι ω)
  | editNode (id : NodeId) (edits : List (NodeEdit ι ω))
  | templateText
  | render

namespace Renderer

def perform (renderer : Renderer ι ω) : Operation ι ω → Renderer ι ω
  | .changeDocument change => renderer.withDocument (change renderer.document)
  | .addProperty name provider => renderer.withProperty name provider
  | .addPolicy policy => renderer.withPolicy policy
  | .disableInterpolation => renderer.disableInterpolation
  | .change id edit => (renderer.change id edit).2
  | .editNode id edits => (renderer.editNode id edits).2
  | .templateText => renderer.templateText.2.1
  | .render => renderer.render.2.1

def performAll (renderer : Renderer ι ω) (operations : List (Operation ι ω)) : Renderer ι ω :=
  operations.foldl perform renderer

def Accepts (renderer : Renderer ι ω) (id : NodeId) : Prop :=
  (∃ root ∈ renderer.roots, renderer.document.Reaches root id) ∧
    (renderer.document.element? id).isSome = true

def IsClearedBy (renderer : Renderer ι ω) : Operation ι ω → Prop
  | .changeDocument _ => True
  | .addProperty _ _ => True
  | .addPolicy _ => True
  | .disableInterpolation => True
  | .change id _ => renderer.Accepts id
  | .editNode id _ => renderer.Accepts id
  | .templateText => False
  | .render => False

def Undisturbed : Renderer ι ω → List (Operation ι ω) → Prop
  | _, [] => True
  | renderer, operation :: rest =>
    ¬renderer.IsClearedBy operation ∧ Undisturbed (renderer.perform operation) rest

theorem any_contains_iff (renderer : Renderer ι ω) (id : NodeId) :
    (renderer.roots.any fun root => renderer.document.contains root id) = true ↔
      (∃ root ∈ renderer.roots, renderer.document.Reaches root id) ∧
        renderer.document.hasNode id = true := by
  simp only [List.any_eq_true, Document.contains_iff]
  constructor
  · rintro ⟨root, isRoot, reaches, isNode⟩
    exact ⟨⟨root, isRoot, reaches⟩, isNode⟩
  · rintro ⟨⟨root, isRoot, reaches⟩, isNode⟩
    exact ⟨root, isRoot, reaches, isNode⟩

theorem refusal?_eq_none_iff (renderer : Renderer ι ω) (id : NodeId) :
    renderer.refusal? id = none ↔ renderer.Accepts id := by
  have element : (renderer.document.element? id).isSome = true ↔
      renderer.document.hasNode id = true ∧ renderer.document.isText id = false := by
    cases found : renderer.document.node? id with
    | none =>
      have outside : renderer.document.hasNode id = false := by
        rw [Document.node?, List.getElem?_eq_none_iff] at found
        exact decide_eq_false (Nat.not_lt.mpr found)
      simp [Document.element?, found, outside]
    | some node =>
      have isNode := Document.hasNode_of_node? found
      cases node <;>
        simp [Document.element?, Document.isText, Document.text?, found, isNode, Node.element?,
          Node.text?]
  rw [Accepts, element, ← and_assoc, ← any_contains_iff, refusal?]
  cases (renderer.roots.any fun root => renderer.document.contains root id) <;>
    cases renderer.document.isText id <;> simp

/-- A targeted operation gives up the result if its node is accepted, and otherwise does nothing. -/
theorem change_cases (renderer : Renderer ι ω) (id : NodeId) (edit : NodeEdit ι ω) :
    (renderer.Accepts id ∧ ∃ draft, (renderer.change id edit).2 = renderer.withDraft draft) ∨
      (¬renderer.Accepts id ∧ (renderer.change id edit).2 = renderer) := by
  rw [← refusal?_eq_none_iff, change]
  cases refused : renderer.refusal? id with
  | none => exact Or.inl ⟨rfl, _, rfl⟩
  | some reason => exact Or.inr ⟨Option.some_ne_none reason, rfl⟩

theorem editNode_cases (renderer : Renderer ι ω) (id : NodeId) (edits : List (NodeEdit ι ω)) :
    (renderer.Accepts id ∧ ∃ draft, (renderer.editNode id edits).2 = renderer.withDraft draft) ∨
      (¬renderer.Accepts id ∧ (renderer.editNode id edits).2 = renderer) := by
  rw [← refusal?_eq_none_iff, editNode]
  cases refused : renderer.refusal? id with
  | none => exact Or.inl ⟨rfl, _, rfl⟩
  | some reason => exact Or.inr ⟨Option.some_ne_none reason, rfl⟩

/-- What an operation does to the kept result: it gives the result up, it leaves the result and the
renderer alone, it compiles without keeping anything, or it keeps a new result where there was none. -/
theorem perform_cases (renderer : Renderer ι ω) (operation : Operation ι ω) :
    (renderer.IsClearedBy operation ∧ (renderer.perform operation).kept = none ∧
        (renderer.perform operation).issued = renderer.issued) ∨
      (¬renderer.IsClearedBy operation ∧ renderer.perform operation = renderer) ∨
      (¬renderer.IsClearedBy operation ∧ renderer.kept = none ∧
        renderer.perform operation = renderer.afterCompile renderer.compilation) ∨
      (¬renderer.IsClearedBy operation ∧ renderer.kept = none ∧
        ∃ compiled, renderer.compilation.outcome = .ok compiled ∧
          renderer.perform operation =
            { renderer.afterCompile renderer.compilation with
              kept := some ⟨renderer.issued, compiled⟩
              issued := renderer.issued + 1 }) := by
  cases operation with
  | changeDocument change => exact Or.inl ⟨trivial, rfl, rfl⟩
  | addProperty name provider => exact Or.inl ⟨trivial, rfl, rfl⟩
  | addPolicy policy => exact Or.inl ⟨trivial, rfl, rfl⟩
  | disableInterpolation => exact Or.inl ⟨trivial, rfl, rfl⟩
  | change id edit =>
    rcases renderer.change_cases id edit with ⟨accepted, draft, same⟩ | ⟨refused, same⟩
    · rw [perform, same]
      exact Or.inl ⟨accepted, rfl, rfl⟩
    · exact Or.inr (Or.inl ⟨refused, same⟩)
  | editNode id edits =>
    rcases renderer.editNode_cases id edits with ⟨accepted, draft, same⟩ | ⟨refused, same⟩
    · rw [perform, same]
      exact Or.inl ⟨accepted, rfl, rfl⟩
    · exact Or.inr (Or.inl ⟨refused, same⟩)
  | templateText =>
    refine Or.inr ?_
    cases isKept : renderer.kept with
    | some issue => exact Or.inl ⟨not_false, by rw [perform, templateText, isKept]⟩
    | none => exact Or.inr (Or.inl ⟨not_false, rfl, by rw [perform, templateText, isKept]⟩)
  | render =>
    refine Or.inr ?_
    cases isKept : renderer.kept with
    | some issue => exact Or.inl ⟨not_false, by rw [perform, render, isKept]⟩
    | none =>
      refine Or.inr ?_
      cases compiles : renderer.compilation.outcome with
      | error reason =>
        refine Or.inl ⟨not_false, rfl, ?_⟩
        simp only [perform, render, isKept, compiles]
      | ok compiled =>
        refine Or.inr ⟨not_false, rfl, compiled, rfl, ?_⟩
        simp only [perform, render, isKept, compiles]

/-- Answers leave alone what is attached to the nodes. -/
theorem metadata_templateText (renderer : Renderer ι ω) :
    renderer.templateText.2.1.metadata = renderer.metadata := by
  rw [templateText]
  split <;> rfl

theorem metadata_render (renderer : Renderer ι ω) :
    renderer.render.2.1.metadata = renderer.metadata := by
  rw [render]
  split
  · rfl
  · dsimp only
    split <;> rfl

def IgnoresBound (renderer : Renderer ι ω) : Prop :=
  Surroundings.IgnoresBound ⟨renderer.metadata, renderer.policies⟩

/-- The outcome of a fresh compiler for a document, with all else as the renderer has it. -/
def freshOutcome (renderer : Renderer ι ω) (document : Document) :
    Except TemplateError (CompiledTemplate ι ω) :=
  let compiler := Compiler.fresh ⟨renderer.metadata, renderer.policies⟩ document
  (compiler.run renderer.roots renderer.named).1.outcome

/-- A kept result has a number that was issued, and is what a fresh compiler makes of a document that
agrees with the present one. -/
structure Consistent (renderer : Renderer ι ω) : Prop where
  numbered : ∀ issue, renderer.kept = some issue → issue.serial < renderer.issued
  current : ∀ issue, renderer.kept = some issue →
    ∃ source : Document, source.Agrees renderer.metadata renderer.document ∧
      renderer.freshOutcome source = .ok issue.compiled

theorem freshOutcome_agrees {renderer : Renderer ι ω} (ignores : renderer.IgnoresBound)
    {left right : Document} (agrees : left.Agrees renderer.metadata right) :
    renderer.freshOutcome left = renderer.freshOutcome right :=
  compile_agrees ignores agrees renderer.roots renderer.named

theorem freshOutcome_document (renderer : Renderer ι ω) :
    renderer.freshOutcome renderer.document = renderer.compilation.outcome := rfl

theorem agrees_afterCompile (renderer : Renderer ι ω) :
    renderer.document.Agrees renderer.metadata
      (renderer.afterCompile renderer.compilation).document :=
  agrees_compile ⟨renderer.metadata, renderer.policies⟩ renderer.document renderer.roots
    renderer.named

theorem consistent_of_none {renderer : Renderer ι ω} (isNone : renderer.kept = none) :
    renderer.Consistent := by
  refine ⟨?_, ?_⟩
  · intro issue isKept
    rw [isNone] at isKept
    cases isKept
  · intro issue isKept
    rw [isNone] at isKept
    cases isKept

theorem Consistent.perform {renderer : Renderer ι ω} (consistent : renderer.Consistent)
    (operation : Operation ι ω) : (renderer.perform operation).Consistent := by
  rcases renderer.perform_cases operation with
    ⟨_, cleared, _⟩ | ⟨_, same⟩ | ⟨_, isNone, same⟩ | ⟨_, isNone, compiled, compiles, same⟩
  · exact consistent_of_none cleared
  · rw [same]
    exact consistent
  · rw [same]
    exact consistent_of_none isNone
  · rw [same]
    refine ⟨?_, ?_⟩
    · intro issue isKept
      obtain rfl := Option.some.inj isKept
      exact Nat.lt_succ_self renderer.issued
    · intro issue isKept
      obtain rfl := Option.some.inj isKept
      exact ⟨renderer.document, renderer.agrees_afterCompile, compiles⟩

theorem Consistent.performAll {renderer : Renderer ι ω} (consistent : renderer.Consistent)
    (operations : List (Operation ι ω)) : (renderer.performAll operations).Consistent := by
  induction operations generalizing renderer with
  | nil => exact consistent
  | cons operation rest ih => exact ih (consistent.perform operation)

theorem consistent_ofDocument {document : Document} {roots : List NodeId}
    {renderer : Renderer ι ω} (built : ofDocument document roots = .ok renderer) :
    renderer.Consistent := by
  rw [ofDocument] at built
  split at built
  · cases built
  · split at built
    · cases built
    · obtain rfl := Except.ok.inj built
      exact consistent_of_none rfl

/-! ## The answers -/

def renderedProperties (renderer : Renderer ι ω) :
    Except TemplateError (SortedMap Text (Provider ι)) :=
  renderer.render.1.map fun issue => issue.compiled.properties

structure AnswersFor (renderer : Renderer ι ω) (document : Document) : Prop where
  rendered : renderer.render.1.map Issue.compiled = renderer.freshOutcome document
  written : renderer.templateText.1 =
    (renderer.freshOutcome document).map CompiledTemplate.template

/-- A consistent renderer answers for a document that agrees with the present one. -/
theorem Consistent.answersFor {renderer : Renderer ι ω} (consistent : renderer.Consistent) :
    ∃ source : Document, source.Agrees renderer.metadata renderer.document ∧
      renderer.AnswersFor source := by
  cases isKept : renderer.kept with
  | some issue =>
    obtain ⟨source, agrees, compiles⟩ := consistent.current issue isKept
    refine ⟨source, agrees, ?_, ?_⟩
    · rw [render, isKept, compiles]
      rfl
    · rw [templateText, isKept, compiles]
      rfl
  | none =>
    refine ⟨renderer.document, Document.Agrees.refl _, ?_, ?_⟩
    · rw [freshOutcome_document]
      cases compiles : renderer.compilation.outcome with
      | error reason =>
        simp only [render, isKept, compiles]
        rfl
      | ok compiled =>
        simp only [render, isKept, compiles]
        rfl
    · rw [freshOutcome_document, templateText, isKept]

theorem AnswersFor.of_agrees {renderer : Renderer ι ω} {source document : Document}
    (answers : renderer.AnswersFor source) (ignores : renderer.IgnoresBound)
    (agrees : source.Agrees renderer.metadata document) : renderer.AnswersFor document := by
  have same := freshOutcome_agrees ignores agrees
  exact ⟨same ▸ answers.rendered, same ▸ answers.written⟩

theorem AnswersFor.renderedProperties_eq {renderer : Renderer ι ω} {source : Document}
    (answers : renderer.AnswersFor source) :
    renderer.renderedProperties =
      (renderer.freshOutcome source).map CompiledTemplate.properties := by
  rw [← answers.rendered, renderedProperties]
  cases renderer.render.1 <;> rfl

/-- The properties are those for the present document, whatever the policies look at. -/
theorem Consistent.renderedProperties_eq {renderer : Renderer ι ω}
    (consistent : renderer.Consistent) :
    renderer.renderedProperties =
      (renderer.freshOutcome renderer.document).map CompiledTemplate.properties := by
  obtain ⟨source, agrees, answers⟩ := consistent.answersFor
  exact answers.renderedProperties_eq.trans
    (compile_properties_agrees ⟨renderer.metadata, renderer.policies⟩ renderer.roots renderer.named
      agrees)

theorem render_eq_error_iff {renderer : Renderer ι ω} (fresh : renderer.kept = none)
    (reason : TemplateError) :
    renderer.render.1 = .error reason ↔ renderer.compilation.fault? = some reason := by
  rw [render, fresh, Compilation.fault?]
  dsimp only
  cases renderer.compilation.outcome with
  | error own => simp
  | ok compiled => simp

theorem compilation_ne_alreadyCompiled (renderer : Renderer ι ω) :
    renderer.compilation.outcome ≠ .error .alreadyCompiled :=
  compile_ne_alreadyCompiled _ renderer.document renderer.roots renderer.named

theorem render_ne_alreadyCompiled (renderer : Renderer ι ω) :
    renderer.render.1 ≠ .error .alreadyCompiled := by
  have possible := renderer.compilation_ne_alreadyCompiled
  rw [render]
  cases renderer.kept with
  | some issue =>
    intro failed
    cases failed
  | none =>
    dsimp only
    split
    · rename_i reason compiles
      rw [compiles] at possible
      intro failed
      exact possible (congrArg Except.error (Except.error.inj failed))
    · intro failed
      cases failed

theorem templateText_ne_alreadyCompiled (renderer : Renderer ι ω) :
    renderer.templateText.1 ≠ .error .alreadyCompiled := by
  have possible := renderer.compilation_ne_alreadyCompiled
  rw [templateText]
  cases renderer.kept with
  | some issue =>
    intro failed
    cases failed
  | none =>
    dsimp only
    intro failed
    cases compiles : renderer.compilation.outcome with
    | error reason =>
      rw [compiles] at failed possible
      exact possible (congrArg Except.error (Except.error.inj failed))
    | ok compiled =>
      rw [compiles] at failed
      cases failed

structure IsPast (renderer : Renderer ι ω) (serial : Nat) : Prop where
  issued : serial < renderer.issued
  replaced : ∀ issue, renderer.kept = some issue → serial < issue.serial

theorem IsPast.perform {renderer : Renderer ι ω} {serial : Nat} (isPast : renderer.IsPast serial)
    (operation : Operation ι ω) : (renderer.perform operation).IsPast serial := by
  rcases renderer.perform_cases operation with
    ⟨_, cleared, issued⟩ | ⟨_, same⟩ | ⟨_, isNone, same⟩ | ⟨_, isNone, compiled, compiles, same⟩
  · refine ⟨issued ▸ isPast.issued, ?_⟩
    intro issue isKept
    rw [cleared] at isKept
    cases isKept
  · rw [same]
    exact isPast
  · rw [same]
    exact ⟨isPast.issued, isPast.replaced⟩
  · rw [same]
    refine ⟨Nat.lt_succ_of_lt isPast.issued, ?_⟩
    intro issue isKept
    obtain rfl := Option.some.inj isKept
    exact isPast.issued

theorem IsPast.performAll {renderer : Renderer ι ω} {serial : Nat}
    (isPast : renderer.IsPast serial) (operations : List (Operation ι ω)) :
    (renderer.performAll operations).IsPast serial := by
  induction operations generalizing renderer with
  | nil => exact isPast
  | cons operation rest ih => exact ih (isPast.perform operation)

/-- From a kept result on, the operations keep it, or it is past. -/
theorem kept_performAll {renderer : Renderer ι ω} {issue : Issue ι ω}
    (isKept : renderer.kept = some issue) (isNumbered : issue.serial < renderer.issued)
    (operations : List (Operation ι ω)) :
    (renderer.Undisturbed operations ∧ (renderer.performAll operations).kept = some issue) ∨
      (¬renderer.Undisturbed operations ∧
        (renderer.performAll operations).IsPast issue.serial) := by
  induction operations generalizing renderer with
  | nil => exact Or.inl ⟨trivial, isKept⟩
  | cons operation rest ih =>
    rcases renderer.perform_cases operation with
      ⟨clears, cleared, issued⟩ | ⟨keeps, same⟩ | ⟨_, isNone, _⟩ | ⟨_, isNone, _⟩
    · refine Or.inr ⟨fun undisturbed => undisturbed.1 clears, ?_⟩
      have isPast : (renderer.perform operation).IsPast issue.serial := by
        refine ⟨issued ▸ isNumbered, ?_⟩
        intro other otherKept
        rw [cleared] at otherKept
        cases otherKept
      exact isPast.performAll rest
    · have later := @ih (renderer.perform operation) (by rw [same, isKept]) (by rwa [same])
      rcases later with ⟨undisturbed, stillKept⟩ | ⟨disturbed, isPast⟩
      · exact Or.inl ⟨⟨keeps, undisturbed⟩, stillKept⟩
      · exact Or.inr ⟨fun undisturbed => disturbed undisturbed.2, isPast⟩
    · rw [isKept] at isNone
      cases isNone
    · rw [isKept] at isNone
      cases isNone

/-- A successful rendering answers with the result that is kept afterwards. -/
theorem kept_render {renderer : Renderer ι ω} {issue : Issue ι ω}
    (rendered : renderer.render.1 = .ok issue) :
    (renderer.perform .render).kept = some issue := by
  cases isKept : renderer.kept with
  | some old =>
    have unchanged : renderer.render = (.ok old, renderer, []) := by rw [render, isKept]
    rw [unchanged] at rendered
    obtain rfl := Except.ok.inj rendered
    rw [perform, unchanged, isKept]
  | none =>
    cases compiles : renderer.compilation.outcome with
    | error reason =>
      simp only [render, isKept, compiles] at rendered
      cases rendered
    | ok compiled =>
      simp only [render, isKept, compiles, Except.ok.injEq] at rendered
      simp only [perform, render, isKept, compiles, rendered]

theorem render_of_kept {renderer : Renderer ι ω} {issue : Issue ι ω}
    (isKept : renderer.kept = some issue) : renderer.render.1 = .ok issue := by
  rw [render, isKept]

theorem Consistent.kept_after_render {renderer : Renderer ι ω} {issue : Issue ι ω}
    (consistent : renderer.Consistent) (rendered : renderer.render.1 = .ok issue) :
    (renderer.perform .render).kept = some issue ∧
      issue.serial < (renderer.perform .render).issued := by
  have isKept := kept_render rendered
  exact ⟨isKept, (consistent.perform .render).numbered issue isKept⟩

/-- Two renderings answer with one result exactly if nothing between them gives it up. -/
theorem Consistent.same_serial_iff {renderer : Renderer ι ω} (consistent : renderer.Consistent)
    (between : List (Operation ι ω)) {first second : Issue ι ω}
    (firstRendered : renderer.render.1 = .ok first)
    (secondRendered : ((renderer.perform .render).performAll between).render.1 = .ok second) :
    (first.serial = second.serial ↔ (renderer.perform .render).Undisturbed between) ∧
      (first.serial = second.serial → first = second) := by
  obtain ⟨isKept, isNumbered⟩ := consistent.kept_after_render firstRendered
  rcases kept_performAll isKept isNumbered between with
    ⟨undisturbed, stillKept⟩ | ⟨disturbed, isPast⟩
  · rw [render_of_kept stillKept] at secondRendered
    obtain rfl := Except.ok.inj secondRendered
    exact ⟨⟨fun _ => undisturbed, fun _ => rfl⟩, fun _ => rfl⟩
  · have later := (isPast.perform .render).replaced second (kept_render secondRendered)
    have apart : first.serial ≠ second.serial := Nat.ne_of_lt later
    exact ⟨⟨fun same => absurd same apart, fun undisturbed => absurd undisturbed disturbed⟩,
      fun same => absurd same apart⟩

/-- After any operations on a renderer, both answers are those of a fresh compiler for a document that
is the present one but for literals which a binding replaces, and the error or the properties are
those for the present document itself. So are both answers if no policy looks at such literals. The
answers never fail for having been compiled before, and two renderings answer with the very same
result exactly if no operation between them gave it up. -/
theorem render_never_stale (document : Document) (roots : List NodeId) (initial : Renderer ι ω)
    (built : ofDocument document roots = .ok initial) (operations : List (Operation ι ω)) :
    let renderer := initial.performAll operations
    (∃ source : Document, source.Agrees renderer.metadata renderer.document ∧
        renderer.AnswersFor source) ∧
      renderer.renderedProperties =
        (renderer.freshOutcome renderer.document).map CompiledTemplate.properties ∧
      (renderer.IgnoresBound → renderer.AnswersFor renderer.document) ∧
      renderer.render.1 ≠ .error .alreadyCompiled ∧
      renderer.templateText.1 ≠ .error .alreadyCompiled ∧
      ∀ between first second, renderer.render.1 = .ok first →
        ((renderer.perform .render).performAll between).render.1 = .ok second →
        (first.serial = second.serial ↔ (renderer.perform .render).Undisturbed between) ∧
          (first.serial = second.serial → first = second) := by
  intro renderer
  have consistent : renderer.Consistent := (consistent_ofDocument built).performAll operations
  obtain ⟨source, agrees, answers⟩ := consistent.answersFor
  refine ⟨⟨source, agrees, answers⟩, consistent.renderedProperties_eq, ?_,
    renderer.render_ne_alreadyCompiled, renderer.templateText_ne_alreadyCompiled, ?_⟩
  · intro ignores
    exact answers.of_agrees ignores agrees
  · intro between first second firstRendered secondRendered
    exact consistent.same_serial_iff between firstRendered secondRendered

def panelRenderer : Renderer Json Text :=
  ⟨.ofDocument titledPanel, [0], SortedMap.empty, [], none, 0⟩

/-- Binds the title, brings the literal back, adds a policy, and renders. -/
def panelOperations (policy : ActivationPolicy Json Text) : List (Operation Json Text) :=
  [.editNode 1 [.bindAttribute "title".toList (fieldProvider "label".toList)],
    .changeDocument fun document => document.setAttribute 1 "title".toList "again".toList,
    .addPolicy policy, .render]

def tapPolicy : ActivationPolicy Json Text :=
  .forTag "div".toList "tap".toList fun _ _ => "tapped".toList

/-- The first rendering drops the literal title from the document. The second one still answers as a
fresh compiler does, and a third one with the same result: neither a text in between nor a refused
change gives it up. -/
theorem panel_never_stale :
    let renderer := panelRenderer.performAll (panelOperations tapPolicy)
    ofDocument titledPanel [0] = .ok panelRenderer ∧ renderer.IgnoresBound ∧
      ∃ first second, renderer.render.1 = .ok first ∧
        ((renderer.perform .render).performAll
          [.templateText, .change 7 (.setFlag [] true)]).render.1 = .ok second ∧
        first = second ∧ renderer.freshOutcome renderer.document = .ok first.compiled := by
  intro renderer
  have built : ofDocument titledPanel [0] = .ok panelRenderer := rfl
  have policies : renderer.policies = [tapPolicy] := rfl
  have ignores : renderer.IgnoresBound := by
    intro policy member
    rw [policies, List.mem_singleton] at member
    rw [member]
    exact forTag_ignoresBound _ _ _ _
  obtain ⟨-, -, answers, -, -, same⟩ :=
    render_never_stale titledPanel [0] panelRenderer built (panelOperations tapPolicy)
  have foreign : ((renderer.perform .render).perform .templateText).refusal? 7 ≠ none := by
    decide +kernel
  have undisturbed : (renderer.perform .render).Undisturbed
      [.templateText, .change 7 (.setFlag [] true)] :=
    ⟨not_false, mt (refusal?_eq_none_iff _ 7).mpr foreign, trivial⟩
  have firstSucceeds : renderer.render.1.toBool = true := by
    decide +kernel
  have secondSucceeds : ((renderer.perform .render).performAll
      [.templateText, .change 7 (.setFlag [] true)]).render.1.toBool = true := by
    decide +kernel
  obtain ⟨first, firstRendered⟩ := exists_ok firstSucceeds
  obtain ⟨second, secondRendered⟩ := exists_ok secondSucceeds
  obtain ⟨serials, equal⟩ := same _ first second firstRendered secondRendered
  have current : renderer.render.1.map Issue.compiled =
      renderer.freshOutcome renderer.document := (answers ignores).rendered
  rw [firstRendered] at current
  exact ⟨built, ignores, first, second, firstRendered, secondRendered,
    equal (serials.mpr undisturbed), current.symm⟩

/-- A policy that looks at a literal which a binding replaces makes the kept result stale: the listener
that it gave is in the result, but no longer in what a fresh compiler writes. -/
theorem peeking_policy_stale :
    let renderer := panelRenderer.performAll (panelOperations peekingPolicy)
    ofDocument titledPanel [0] = .ok panelRenderer ∧ renderer.document.AcyclicBelow [0] ∧
      ¬renderer.AnswersFor renderer.document := by
  intro renderer
  have acyclic : renderer.document.AcyclicBelow [0] :=
    Document.acyclicBelow_of_forward [0] (by decide +kernel)
  have apart : renderer.templateText.1.toOption ≠
      ((renderer.freshOutcome renderer.document).map CompiledTemplate.template).toOption := by
    decide +kernel
  exact ⟨rfl, acyclic, fun answers => apart (congrArg Except.toOption answers.written)⟩

end Renderer

end TreeTemplate
