import TreeTemplate.Document.Blueprint
import TreeTemplate.Markup.Declaration
import TreeTemplate.Template.Renderer

/-!
# Markup files

A markup file describes a template: a tree, and directives on its elements. Parsing reads the
source, interprets it, builds the tree and numbers the directives with the identities that the
elements receive. A renderer is made of it by applying the directives in their order.
-/
set_option autoImplicit false

namespace TreeTemplate.Markup

/-! ## From declarations to a document -/

def Declaration.attribute? : Declaration → Option (Text × Text)
  | setAttribute name value => some (name, value)
  | _ => none

def Declaration.property? : Declaration → Option (Text × PropertyValue)
  | setProperty name value => some (name, value)
  | _ => none

def Declaration.directive? : Declaration → Option Directive
  | directive content => some content
  | _ => none

mutual

/-- The tree with its literals and without its directives. -/
def Declared.blueprint : Declared → Blueprint
  | .text content => .text content
  | .element tag declarations children =>
    .element tag (declarations.filterMap Declaration.attribute?)
      (declarations.filterMap Declaration.property?) (blueprints children)

/-- The trees with their literals and without their directives. -/
def Declared.blueprints : List Declared → List Blueprint
  | [] => []
  | first :: rest => first.blueprint :: blueprints rest

end

mutual

def Declared.size : Declared → Nat
  | .text _ => 1
  | .element _ _ children => sizeAll children + 1

def Declared.sizeAll : List Declared → Nat
  | [] => 0
  | first :: rest => first.size + sizeAll rest

end

mutual

/-- The directives in the tree, each with the identity of its element, where the root has the
identity `id` and the nodes below it follow in pre-order. -/
def Declared.directives (id : NodeId) : Declared → List (NodeId × Directive)
  | .text _ => []
  | .element _ declarations children =>
    (declarations.filterMap Declaration.directive?).map (fun directive => (id, directive)) ++
      directivesOfAll (id + 1) children

/-- The directives in several trees, whose nodes are numbered one tree after the other. -/
def Declared.directivesOfAll (id : NodeId) : List Declared → List (NodeId × Directive)
  | [] => []
  | first :: rest => first.directives id ++ directivesOfAll (id + first.size) rest

end

end Markup

open Markup

structure Markup where
  document : Document
  roots : List NodeId
  directives : List (NodeId × Directive)

namespace Markup

def ofDeclared (forest : List Declared) : Markup :=
  let (roots, document) := Document.empty.buildAll (Declared.blueprints forest)
  ⟨document, roots, Declared.directivesOfAll 0 forest⟩

/-- Parses a markup file. There has to be an element or a text in it. -/
def parse (source : Text) : Except MarkupError Markup :=
  match read source with
  | .error position => .error (.malformed position)
  | .ok trees =>
    match Written.interpretAll trees with
    | .error reason => .error reason
    | .ok [] => .error .empty
    | .ok forest => .ok (ofDeclared forest)

/-! ## From markup to a renderer -/

variable {ω : Type}

/-- The edit that a directive asks for. Bound fields are read from the item; a listener announces
its event with the item, and with its arguments if it has any. -/
def Directive.edit (announce : LogRecord → ω) (id : NodeId) : Directive → NodeEdit Json ω
  | .bindAttribute name field => .bindAttribute name (fieldProvider field)
  | .bindProperty name field => .bindProperty name (fieldProvider field)
  | .listen event none => .listen event ⟨fun item _ => announce (.heard event id item none), none⟩
  | .listen event (some arguments) =>
    .listen event ⟨fun item values => announce (.heard event id item (some values)), some arguments⟩
  | .interpolate enabled => .interpolate (if enabled then .enabled else .disabled)

/-- Applies directives in their order, up to the first one that fails. -/
def applyDirectives (announce : LogRecord → ω) (renderer : Renderer Json ω) :
    List (NodeId × Directive) → Except TemplateError (Renderer Json ω)
  | [] => .ok renderer
  | (id, directive) :: rest =>
    match renderer.change id (directive.edit announce id) with
    | (.error reason, _) => .error reason
    | (.ok _, changed) => applyDirectives announce changed rest

def renderer (announce : LogRecord → ω) (markup : Markup) :
    Except TemplateError (Renderer Json ω) :=
  match Renderer.ofDocument markup.document markup.roots with
  | .error reason => .error reason
  | .ok blank => applyDirectives announce blank markup.directives

end Markup

end TreeTemplate
