import TreeTemplate.Template.Compiler
import TreeTemplate.Template.Draft

/-!
# Renderers

A renderer keeps a draft with its roots, named properties and policies, and compiles it when a
result is asked for. The result is kept until something changes. Every kept result has a serial
number, so that two answers are the same result exactly if their numbers are equal.
-/
set_option autoImplicit false

namespace TreeTemplate

variable {ι ω : Type}

/-- A compiled template that was handed out, with its number. -/
structure Issue (ι ω : Type) where
  serial : Nat
  compiled : CompiledTemplate ι ω

/-- A template that can be changed and compiled again. -/
structure Renderer (ι ω : Type) where
  draft : Draft ι ω
  roots : List NodeId
  named : SortedMap Text (Provider ι)
  policies : List (ActivationPolicy ι ω)
  /-- The result of the last rendering, unless something changed since. -/
  kept : Option (Issue ι ω)
  /-- The number of results so far. -/
  issued : Nat

namespace Renderer

/-- The renderer of a document with the given roots, all of which have to exist. -/
def ofDocument (document : Document) (roots : List NodeId) :
    Except TemplateError (Renderer ι ω) :=
  if roots.isEmpty then .error .emptyTemplate
  else
    match roots.find? fun root => !document.hasNode root with
    | some missing => .error (.unknownNode missing)
    | none => .ok ⟨.ofDocument document, roots, SortedMap.empty, [], none, 0⟩

def document (renderer : Renderer ι ω) : Document :=
  renderer.draft.document

def metadata (renderer : Renderer ι ω) : Metadata ι ω :=
  renderer.draft.metadata

/-- The renderer with a changed draft and no kept result. -/
def withDraft (renderer : Renderer ι ω) (draft : Draft ι ω) : Renderer ι ω :=
  { renderer with draft := draft, kept := none }

/-! ## Changes to the whole template -/

def withDocument (renderer : Renderer ι ω) (document : Document) : Renderer ι ω :=
  renderer.withDraft (renderer.draft.withDocument document)

def withProperty (renderer : Renderer ι ω) (name : Text) (provider : Provider ι) : Renderer ι ω :=
  { renderer with named := renderer.named.insert name provider, kept := none }

def withPolicy (renderer : Renderer ι ω) (policy : ActivationPolicy ι ω) : Renderer ι ω :=
  { renderer with policies := renderer.policies ++ [policy], kept := none }

def disableInterpolation (renderer : Renderer ι ω) : Renderer ι ω :=
  renderer.withDraft (renderer.roots.foldl
    (fun draft root => (draft.edit root (.interpolate .disabled)).2) renderer.draft)

/-! ## Changes to one node -/

/-- Why a node cannot be changed through the renderer, if it cannot: it is not reached from any
root, or it is a text. -/
def refusal? (renderer : Renderer ι ω) (id : NodeId) : Option TemplateError :=
  if !renderer.roots.any fun root => renderer.document.contains root id then some (.foreignNode id)
  else if renderer.document.isText id then some (.textNode id)
  else none

/-- Makes edits of one element. Unless the element is refused, the kept result is given up, even if
there are no edits or one of them fails. -/
def editNode (renderer : Renderer ι ω) (id : NodeId) (edits : List (NodeEdit ι ω)) :
    Except TemplateError (List (Except TemplateError Unit)) × Renderer ι ω :=
  match renderer.refusal? id with
  | some reason => (.error reason, renderer)
  | none =>
    let (outcomes, draft) := renderer.draft.editAll id edits
    (.ok outcomes, renderer.withDraft draft)

/-- Makes one edit of one element, kept results as in `editNode`. -/
def change (renderer : Renderer ι ω) (id : NodeId) (edit : NodeEdit ι ω) :
    Except TemplateError Unit × Renderer ι ω :=
  match renderer.refusal? id with
  | some reason => (.error reason, renderer)
  | none =>
    let (outcome, draft) := renderer.draft.edit id edit
    (outcome, renderer.withDraft draft)

/-! ## Results -/

def compilation (renderer : Renderer ι ω) : Compilation ι ω :=
  compile ⟨renderer.metadata, renderer.policies⟩ renderer.document renderer.roots renderer.named

/-- The renderer with the document that a compile leaves. -/
def afterCompile (renderer : Renderer ι ω) (compilation : Compilation ι ω) : Renderer ι ω :=
  { renderer with draft := renderer.draft.withDocument compilation.document }

/-- The text of the template: that of the kept result, or of a compile whose result is not kept. -/
def templateText (renderer : Renderer ι ω) :
    Except TemplateError Text × Renderer ι ω × List LogRecord :=
  match renderer.kept with
  | some issue => (.ok issue.compiled.template, renderer, [])
  | none =>
    let compilation := renderer.compilation
    (compilation.outcome.map CompiledTemplate.template, renderer.afterCompile compilation,
      compilation.records)

/-- The compiled template: the kept result, or that of a compile, which is then kept. -/
def render (renderer : Renderer ι ω) :
    Except TemplateError (Issue ι ω) × Renderer ι ω × List LogRecord :=
  match renderer.kept with
  | some issue => (.ok issue, renderer, [])
  | none =>
    let compilation := renderer.compilation
    let left := renderer.afterCompile compilation
    match compilation.outcome with
    | .error reason => (.error reason, left, compilation.records)
    | .ok compiled =>
      let issue : Issue ι ω := ⟨renderer.issued, compiled⟩
      (.ok issue, { left with kept := some issue, issued := renderer.issued + 1 },
        compilation.records)

end Renderer

end TreeTemplate
