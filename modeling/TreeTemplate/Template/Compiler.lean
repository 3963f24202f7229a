import TreeTemplate.Template.Writer

/-!
# Compiling

A compile writes the trees below the roots as one template and collects the bindings that the
template refers to. It removes from the document every literal attribute and property that a
binding replaces, from each element that it enters, also when it fails later on.
-/
set_option autoImplicit false

namespace TreeTemplate

variable {ι ω : Type}

/-- A template and the bindings that it refers to. -/
structure CompiledTemplate (ι ω : Type) where
  template : Text
  bindings : Bindings ι ω

/-- What a compile comes to: its outcome, the document it leaves, and the records it made. -/
structure Compilation (ι ω : Type) where
  outcome : Except TemplateError (CompiledTemplate ι ω)
  document : Document
  records : List LogRecord

def CompiledTemplate.record (compiled : CompiledTemplate ι ω) (roots : Nat) : LogRecord :=
  .compiled roots compiled.template.utf8Size compiled.bindings.properties.size
    compiled.bindings.functions.size

/-- Compiles the trees below the roots. The named properties are passed on to the bindings. -/
def compile (surroundings : Surroundings ι ω) (document : Document) (roots : List NodeId)
    (named : SortedMap Text (Provider ι)) : Compilation ι ω :=
  let tour := document.tour surroundings.metadata.interpolation roots
  let transcript := transcribe surroundings document (Registry.ofNamed named) tour
  match transcript.fault with
  | some reason => ⟨.error reason, transcript.document, transcript.records⟩
  | none =>
    let compiled : CompiledTemplate ι ω :=
      ⟨transcript.text ++ ['\n'], transcript.registry.finish⟩
    ⟨.ok compiled, transcript.document, transcript.records ++ [compiled.record roots.length]⟩

/-- A compiler, which can be used once. -/
structure Compiler (ι ω : Type) where
  surroundings : Surroundings ι ω
  document : Document
  spent : Bool

namespace Compiler

def fresh (surroundings : Surroundings ι ω) (document : Document) : Compiler ι ω :=
  ⟨surroundings, document, false⟩

/-- Compiles the trees below the roots, unless the compiler has been used before. -/
def run (compiler : Compiler ι ω) (roots : List NodeId) (named : SortedMap Text (Provider ι)) :
    Compilation ι ω × Compiler ι ω :=
  if compiler.spent then (⟨.error .alreadyCompiled, compiler.document, []⟩, compiler)
  else
    let compilation := compile compiler.surroundings compiler.document roots named
    (compilation, { compiler with document := compilation.document, spent := true })

end Compiler

end TreeTemplate
