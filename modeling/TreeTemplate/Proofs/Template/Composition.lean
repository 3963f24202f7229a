import TreeTemplate.Proofs.Document.Trails
import TreeTemplate.Proofs.Template.Faults
import TreeTemplate.Proofs.Template.Skeleton
import TreeTemplate.Proofs.Template.Stripping

/-!
# How a template is composed

A template is put together from the start tags, the texts and the end tags of what is at and below
the roots. How each of them is written depends on the elements around it: a text is written in the
mode of the innermost override around it, and the literals of an element in that of the innermost
one on the trail of the element.
-/
set_option autoImplicit false

namespace TreeTemplate

variable {ι ω : Type}

/-- The mode of the innermost override on a trail. It is on if there is none. -/
def nearestMode (modes : NodeId → Interpolation) (trail : List NodeId) : Bool :=
  match trail.find? fun id => modes id ≠ .inherit with
  | some id => modes id = .enabled
  | none => true

/-- The mode that is handed down to an element and resolved there is the nearest one. -/
theorem nearestMode_cons (modes : NodeId → Interpolation) (id : NodeId) (outer : List NodeId) :
    nearestMode modes (id :: outer) = (modes id).resolve (nearestMode modes outer) := by
  cases mode : modes id <;> simp [nearestMode, Interpolation.resolve, mode]

def Document.SameModes (document : Document) (roots : List NodeId)
    (left right : List NodeId → Bool) : Prop :=
  ∀ id outer, document.Trail roots (id :: outer) → (document.element? id).isSome = true →
    left (id :: outer) = right (id :: outer)

/-- How the parts of a template are written: the start tag of an element, with its trail, and a text,
with the elements around it. -/
structure Manner where
  start : NodeId → List NodeId → Element → Text → Prop
  text : List NodeId → Text → Text

def Element.closing (element : Element) (depth : Nat) : Text :=
  let closing := '<' :: '/' :: element.tag ++ ['>']
  if element.children.isEmpty then closing else padding depth ++ closing

/-- The text is put together from the nodes with the given identities and from what is below them,
in pre-order. The first list holds the elements around them, from the inside out. -/
inductive Document.Composes (document : Document) (manner : Manner) :
    List NodeId → List NodeId → Text → Prop where
  | done {outer : List NodeId} : Composes document manner outer [] []
  | text {outer rest : List NodeId} {id : NodeId} {content later : Text}
      (found : document.node? id = some (.text content))
      (behind : Composes document manner outer rest later) :
      Composes document manner outer (id :: rest) (manner.text outer content ++ later)
  | element {outer rest : List NodeId} {id : NodeId} {element : Element} {start inner later : Text}
      (found : document.node? id = some (.element element))
      (starts : manner.start id outer element start)
      (below : Composes document manner (id :: outer) element.children inner)
      (behind : Composes document manner outer rest later) :
      Composes document manner outer (id :: rest)
        (start ++ inner ++ element.closing outer.length ++ later)

/-- The text is a start tag of the element, with its literals in the given mode. The names of the
bindings and of the listeners, and what the policies see, depend on the way to the element. -/
def Surroundings.Starts (surroundings : Surroundings ι ω) (interpolate : Bool) (depth : Nat)
    (id : NodeId) (element : Element) (text : Text) : Prop :=
  let metadata := surroundings.metadata.ofNode id
  let bare := element.withoutBound metadata
  (writeProperties interpolate bare.properties).2 = none ∧
    ∃ (document : Document) (first second third : Registry ι ω),
      text = padding depth ++ '<' :: element.tag ++
        (writeBindings [] metadata.attributes.entries first).1 ++
        (writeAttributes interpolate bare.attributes).text ++
        (writeBindings ['.'] metadata.properties.entries second).1 ++
        (writeProperties interpolate bare.properties).1.text ++
        (writeListeners (surroundings.listenersAt document id) third).1 ++ ['>']

def Surroundings.manner (surroundings : Surroundings ι ω) (mode : List NodeId → Bool) : Manner where
  start id outer element := surroundings.Starts (mode (id :: outer)) outer.length id element
  text outer content := padding outer.length ++ encodeText (mode outer) content

section Transfer
variable {surroundings : Surroundings ι ω} {outer ids : List NodeId} {text : Text}

/-- What is composed in some modes is composed in others that agree on the elements. -/
theorem Document.Composes.sameModes {document : Document} {roots : List NodeId}
    {left right : List NodeId → Bool}
    (composes : document.Composes (surroundings.manner left) outer ids text)
    (same : document.SameModes roots left right) (top : left [] = right [])
    (trail : document.Trail roots outer) (follow : ids ⊆ document.following roots outer) :
    document.Composes (surroundings.manner right) outer ids text := by
  induction composes with
  | done => exact Document.Composes.done
  | @text outer rest id content later found behind ih =>
    obtain ⟨follows, followLater⟩ := List.cons_subset.mp follow
    have modes : left outer = right outer := by
      cases outer with
      | nil => exact top
      | cons parent around => exact same parent around trail (trail.step follows).isElement
    have texts : (surroundings.manner left).text outer content =
        (surroundings.manner right).text outer content :=
      congrArg (fun mode => padding outer.length ++ encodeText mode content) modes
    rw [texts]
    exact Document.Composes.text found (ih trail followLater)
  | @element outer rest id element start inner later found starts below behind ihBelow ihBehind =>
    obtain ⟨follows, followLater⟩ := List.cons_subset.mp follow
    have isElement : (document.element? id).isSome = true := by
      simp [Document.element?, found, Node.element?]
    have inside : document.Trail roots (id :: outer) := trail.step follows
    have children : element.children ⊆ document.following roots (id :: outer) := by
      rw [Document.following, Document.children_of_element found]
      exact List.Subset.refl _
    refine Document.Composes.element found ?_ (ihBelow inside children) (ihBehind trail followLater)
    change surroundings.Starts (right (id :: outer)) outer.length id element start
    rw [← same id outer inside isElement]
    exact starts

theorem starts_withoutBound {interpolate : Bool} {depth : Nat} {id : NodeId}
    {first second : Element}
    (same : first.withoutBound (surroundings.metadata.ofNode id) =
      second.withoutBound (surroundings.metadata.ofNode id))
    (starts : surroundings.Starts interpolate depth id first text) :
    surroundings.Starts interpolate depth id second text := by
  have tags := congrArg Element.tag same
  rw [Element.withoutBound_tag, Element.withoutBound_tag] at tags
  rw [Surroundings.Starts] at starts ⊢
  rwa [← same, ← tags]

/-- A composition says the same about documents that agree. -/
theorem Document.Composes.agrees {source document : Document} {mode : List NodeId → Bool}
    (composes : source.Composes (surroundings.manner mode) outer ids text)
    (agrees : source.Agrees surroundings.metadata document) :
    document.Composes (surroundings.manner mode) outer ids text := by
  induction composes with
  | done => exact Document.Composes.done
  | text found behind ih => exact Document.Composes.text (agrees.text found) ih
  | @element outer rest id element start inner later found starts below behind ihBelow ihBehind =>
    obtain ⟨other, otherFound, same⟩ := agrees.element found
    have tags := congrArg Element.tag same
    have children := congrArg Element.children same
    rw [Element.withoutBound_tag, Element.withoutBound_tag] at tags
    rw [Element.withoutBound_children, Element.withoutBound_children] at children
    rw [children] at ihBelow
    rw [Element.closing, tags, children, ← Element.closing]
    exact Document.Composes.element otherFound (starts_withoutBound same starts) ihBelow ihBehind

end Transfer

def Surroundings.Emits (surroundings : Surroundings ι ω) (stop : Stop) (text : Text) : Prop :=
  ∃ (document : Document) (registry : Registry ι ω),
    (stop.emit surroundings document registry).fault = none ∧
      text = (stop.emit surroundings document registry).text

def Surroundings.Writes (surroundings : Surroundings ι ω) : List Stop → Text → Prop
  | [], text => text = []
  | stop :: rest, text =>
    ∃ own later, surroundings.Emits stop own ∧ Writes surroundings rest later ∧ text = own ++ later

section Stops
variable {surroundings : Surroundings ι ω}

theorem writes_append {left right : List Stop} {text : Text}
    (writes : surroundings.Writes (left ++ right) text) :
    ∃ first second, surroundings.Writes left first ∧ surroundings.Writes right second ∧
      text = first ++ second := by
  induction left generalizing text with
  | nil => exact ⟨[], text, rfl, writes, rfl⟩
  | cons stop rest ih =>
    obtain ⟨own, later, emits, writesLater, rfl⟩ := writes
    obtain ⟨first, second, writesRest, writesRight, rfl⟩ := ih writesLater
    exact ⟨own ++ first, second, ⟨own, first, emits, writesRest, rfl⟩, writesRight,
      (List.append_assoc own first second).symm⟩

theorem writes_singleton {stop : Stop} {text : Text} (writes : surroundings.Writes [stop] text) :
    surroundings.Emits stop text := by
  obtain ⟨own, later, emits, rfl, rfl⟩ := writes
  rwa [List.append_nil]

theorem writes_transcribe (document : Document) (registry : Registry ι ω) (tour : List Stop)
    (complete : (transcribe surroundings document registry tour).fault = none) :
    surroundings.Writes tour (transcribe surroundings document registry tour).text := by
  induction tour generalizing document registry with
  | nil => rfl
  | cons stop rest ih =>
    let stripped := stop.strip surroundings.metadata document
    cases faulty : (stop.emit surroundings stripped registry).fault with
    | some reason => simp [transcribe, faulty, stripped] at complete
    | none =>
      simp only [transcribe, faulty, stripped] at complete ⊢
      exact ⟨_, _, ⟨stripped, registry, faulty, rfl⟩, ih _ _ complete, rfl⟩

theorem starts_of_emits {depth : Nat} {id : NodeId} {element : Element}
    {inherited interpolate : Bool} {text : Text}
    (emits : surroundings.Emits (.enter depth id element inherited interpolate) text) :
    surroundings.Starts interpolate depth id element text := by
  obtain ⟨document, registry, complete, rfl⟩ := emits
  rw [Stop.emit, writeStart_fault] at complete
  let metadata := surroundings.metadata.ofNode id
  let afterAttributes := (writeBindings [] metadata.attributes.entries registry).2
  let afterProperties := (writeBindings ['.'] metadata.properties.entries afterAttributes).2
  refine ⟨complete, document, registry, afterAttributes, afterProperties, ?_⟩
  simp only [Stop.emit, writeStart, complete]
  rfl

/-- What a tour writes is composed of the nodes on it, in the nearest modes. The bound on the nesting
decreases from an element to its children. -/
theorem composes_of_writes (document : Document) (modes : NodeId → Interpolation) (bound : Nat)
    (outer ids : List NodeId) (text : Text)
    (writes : surroundings.Writes
      (ids.flatMap (document.tourFrom modes bound outer.length (nearestMode modes outer))) text) :
    document.Composes (surroundings.manner (nearestMode modes)) outer ids text := by
  induction bound using Nat.strongRecOn generalizing outer ids text with
  | ind bound ihBound =>
    induction ids generalizing text with
    | nil =>
      obtain rfl : text = [] := writes
      exact Document.Composes.done
    | cons id rest ihRest =>
      rw [List.flatMap_cons] at writes
      obtain ⟨own, later, writesOwn, writesLater, rfl⟩ := writes_append writes
      have behind := ihRest later writesLater
      cases found : document.node? id with
      | none =>
        rw [Document.tourFrom, found] at writesOwn
        obtain ⟨_, _, impossible, -⟩ := writes_singleton writesOwn
        cases impossible
      | some node =>
        cases node with
        | text content =>
          rw [tourFrom_text found] at writesOwn
          obtain ⟨_, _, -, rfl⟩ := writes_singleton writesOwn
          exact Document.Composes.text found behind
        | element element =>
          cases bound with
          | zero =>
            rw [Document.tourFrom, found] at writesOwn
            obtain ⟨_, _, impossible, -⟩ := writes_singleton writesOwn
            cases impossible
          | succ bound =>
            rw [tourFrom_element found, ← nearestMode_cons] at writesOwn
            obtain ⟨start, behindStart, emits, writesInner, rfl⟩ := writesOwn
            obtain ⟨inner, closing, writesBelow, writesEnd, rfl⟩ := writes_append writesInner
            obtain ⟨_, _, -, rfl⟩ := writes_singleton writesEnd
            have below := ihBound bound (Nat.lt_succ_self bound) (id :: outer) element.children
              inner writesBelow
            have whole := Document.Composes.element found (starts_of_emits emits) below behind
            rwa [List.append_assoc start] at whole

end Stops

/-- A successful compile writes what the stops of its tour add and a line break. -/
theorem compile_writes {surroundings : Surroundings ι ω} {document : Document}
    {roots : List NodeId} {named : SortedMap Text (Provider ι)} {compiled : CompiledTemplate ι ω}
    (success : (compile surroundings document roots named).outcome = .ok compiled) :
    ∃ body, compiled.template = body ++ ['\n'] ∧
      surroundings.Writes (document.tour surroundings.metadata.interpolation roots) body := by
  rw [compile] at success
  dsimp only at success
  split at success
  · cases success
  · rename_i complete
    obtain rfl := Except.ok.inj success
    exact ⟨_, rfl, writes_transcribe document _ _ complete⟩

/-- A successful compile writes a composition in the nearest modes and a line break. -/
theorem compile_composes {surroundings : Surroundings ι ω} {document : Document}
    {roots : List NodeId} {named : SortedMap Text (Provider ι)} {compiled : CompiledTemplate ι ω}
    (success : (compile surroundings document roots named).outcome = .ok compiled) :
    ∃ body, compiled.template = body ++ ['\n'] ∧
      document.Composes (surroundings.manner (nearestMode surroundings.metadata.interpolation))
        [] roots body := by
  obtain ⟨body, template, writes⟩ := compile_writes success
  exact ⟨body, template, composes_of_writes document _ document.size [] roots body writes⟩

end TreeTemplate
