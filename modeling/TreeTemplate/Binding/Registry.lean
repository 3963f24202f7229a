import TreeTemplate.Binding.Bindings

/-!
# Registries

A registry hands out the names `property0`, `property1`, … and `function0`, `function1`, … in the
order in which providers and handlers arrive. The two sequences count separately, and a property
name that the caller has taken is passed over.
-/
set_option autoImplicit false

namespace TreeTemplate

def propertyName (ordinal : Nat) : Text :=
  "property".toList ++ Text.numeral ordinal

def functionName (ordinal : Nat) : Text :=
  "function".toList ++ Text.numeral ordinal

/-- The bindings handed out so far, and the ordinals to try next. -/
structure Registry (ι ω : Type) where
  properties : SortedMap Text (Provider ι)
  functions : SortedMap Text (Handler ι ω)
  nextProperty : Nat
  nextFunction : Nat

namespace Registry

variable {ι ω : Type}

/-- The registry that holds the properties named by the caller. -/
def ofNamed (named : SortedMap Text (Provider ι)) : Registry ι ω :=
  ⟨named, SortedMap.empty, 0, 0⟩

/-- The first ordinal from `ordinal` on whose property name is free, after passing over at most
`bound` taken ones. -/
def firstFree (taken : SortedMap Text (Provider ι)) : Nat → Nat → Nat
  | 0, ordinal => ordinal
  | bound + 1, ordinal =>
    if taken.has (propertyName ordinal) then firstFree taken bound (ordinal + 1) else ordinal

/-- Binds a provider to the next free property name. There are no more taken names to pass over
than there are properties. -/
def addProperty (registry : Registry ι ω) (provider : Provider ι) : Text × Registry ι ω :=
  let ordinal := firstFree registry.properties registry.properties.size registry.nextProperty
  let name := propertyName ordinal
  (name, { registry with
    properties := registry.properties.insert name provider
    nextProperty := ordinal + 1 })

def addFunction (registry : Registry ι ω) (handler : Handler ι ω) : Text × Registry ι ω :=
  let name := functionName registry.nextFunction
  (name, { registry with
    functions := registry.functions.insert name handler
    nextFunction := registry.nextFunction + 1 })

def finish (registry : Registry ι ω) : Bindings ι ω :=
  ⟨registry.properties, registry.functions⟩

end Registry

end TreeTemplate
