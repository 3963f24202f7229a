import TreeTemplate.Document.Blueprint
import TreeTemplate.Proofs.Template.Composition
import TreeTemplate.Proofs.Template.Stripping

/-!
# Overrides

What a compile comes to depends on the interpolation overrides only through the nearest one on each
trail. Overrides that do not change the nearest modes can be set and dropped, and every element can
be given its mode as an override of its own.
-/
set_option autoImplicit false

namespace TreeTemplate

variable {ι ω : Type}

section Tours
variable {document : Document} {roots : List NodeId} {left right : NodeId → Interpolation}

/-- A tour depends on the nearest modes only. The bound on the nesting decreases. -/
theorem tourFrom_congr
    (same : document.SameModes roots (nearestMode left) (nearestMode right)) (bound depth : Nat)
    (inherited : Bool) (id : NodeId) (outer : List NodeId)
    (trail : document.Trail roots (id :: outer)) (isLeft : nearestMode left outer = inherited)
    (isRight : nearestMode right outer = inherited) :
    document.tourFrom left bound depth inherited id =
      document.tourFrom right bound depth inherited id := by
  induction bound generalizing depth inherited id outer with
  | zero => rw [Document.tourFrom, Document.tourFrom]
  | succ bound ih =>
    cases found : document.node? id with
    | none => rw [Document.tourFrom, Document.tourFrom, found]
    | some node =>
      cases node with
      | text content => rw [tourFrom_text found, tourFrom_text found]
      | element element =>
        have isElement : (document.element? id).isSome = true := by
          simp [Document.element?, found, Node.element?]
        have leftMode : nearestMode left (id :: outer) = (left id).resolve inherited := by
          rw [nearestMode_cons, isLeft]
        have rightMode : nearestMode right (id :: outer) = (right id).resolve inherited := by
          rw [nearestMode_cons, isRight]
        have modes : (left id).resolve inherited = (right id).resolve inherited := by
          rw [← leftMode, ← rightMode, same id outer trail isElement]
        have below : element.children.flatMap
              (document.tourFrom left bound (depth + 1) ((right id).resolve inherited)) =
            element.children.flatMap
              (document.tourFrom right bound (depth + 1) ((right id).resolve inherited)) := by
          refine List.flatMap_congr ?_
          intro child isChild
          rw [← Document.children_of_element found] at isChild
          exact ih (depth + 1) _ child (id :: outer) (trail.step isChild) (leftMode.trans modes)
            rightMode
        rw [tourFrom_element found, tourFrom_element found, modes, below]

theorem tour_congr (same : document.SameModes roots (nearestMode left) (nearestMode right)) :
    document.tour left roots = document.tour right roots := by
  refine List.flatMap_congr ?_
  intro root isRoot
  have trail : document.Trail roots [root] := Document.Trail.outside.step isRoot
  exact tourFrom_congr same document.size 0 true root [] trail rfl rfl

end Tours

def Metadata.SameButModes (metadata changed : Metadata ι ω) : Prop :=
  ∀ id, changed.ofNode id =
    { metadata.ofNode id with interpolation := changed.interpolation id }

section Transcripts
variable {metadata changed : Metadata ι ω} (same : metadata.SameButModes changed)
include same

theorem strip_sameButModes (document : Document) (stop : Stop) :
    stop.strip changed document = stop.strip metadata document := by
  cases stop with
  | enter depth id element inherited interpolate =>
    rw [Stop.strip, Stop.strip, Document.dropBound, Document.dropBound, same id]
    rfl
  | _ => rfl

theorem emit_sameButModes (policies : List (ActivationPolicy ι ω)) (document : Document)
    (registry : Registry ι ω) (stop : Stop) :
    stop.emit ⟨changed, policies⟩ document registry =
      stop.emit ⟨metadata, policies⟩ document registry := by
  cases stop with
  | enter depth id element inherited interpolate =>
    simp only [Stop.emit, writeStart, Surroundings.synthesized, same id]
    rfl
  | _ => rfl

theorem transcribe_sameButModes (policies : List (ActivationPolicy ι ω)) (document : Document)
    (registry : Registry ι ω) (tour : List Stop) :
    transcribe ⟨changed, policies⟩ document registry tour =
      transcribe ⟨metadata, policies⟩ document registry tour := by
  induction tour generalizing document registry with
  | nil => rfl
  | cons stop rest ih =>
    simp only [transcribe, strip_sameButModes same, emit_sameButModes same, ih]

/-- Stores with the same nearest modes that are otherwise alike compile to the same. -/
theorem compile_sameButModes (policies : List (ActivationPolicy ι ω)) (document : Document)
    (roots : List NodeId) (named : SortedMap Text (Provider ι))
    (modes : document.SameModes roots (nearestMode changed.interpolation)
      (nearestMode metadata.interpolation)) :
    compile ⟨changed, policies⟩ document roots named =
      compile ⟨metadata, policies⟩ document roots named := by
  simp only [compile, tour_congr modes, transcribe_sameButModes same]

end Transcripts

/-! ## Setting overrides -/

def Metadata.override (metadata : Metadata ι ω) (id : NodeId) (mode : Interpolation) :
    Metadata ι ω :=
  metadata.insert id { metadata.ofNode id with interpolation := mode }

section Setting
variable (metadata : Metadata ι ω) (id : NodeId) (mode : Interpolation)

theorem interpolation_override_same : (metadata.override id mode).interpolation id = mode := by
  rw [Metadata.interpolation, Metadata.override, ofNode_insert_same]

theorem interpolation_override_other {other : NodeId} (apart : other ≠ id) :
    (metadata.override id mode).interpolation other = metadata.interpolation other := by
  rw [Metadata.interpolation, Metadata.override, ofNode_insert_other _ _ apart]
  rfl

theorem sameButModes_override : metadata.SameButModes (metadata.override id mode) := by
  intro other
  by_cases same : other = id
  · subst same
    rw [interpolation_override_same, Metadata.override, ofNode_insert_same]
  · rw [interpolation_override_other metadata id mode same, Metadata.override,
      ofNode_insert_other _ _ same]
    rfl

theorem Metadata.SameButModes.trans {metadata between changed : Metadata ι ω}
    (first : metadata.SameButModes between) (second : between.SameButModes changed) :
    metadata.SameButModes changed := by
  intro id
  rw [second id, first id]

/-- The nodes of a document can be given any overrides. -/
theorem exists_sameButModes (modes : NodeId → Interpolation) (count : Nat) :
    ∃ changed : Metadata ι ω, metadata.SameButModes changed ∧
      ∀ id < count, changed.interpolation id = modes id := by
  induction count with
  | zero => exact ⟨metadata, fun id => rfl, fun id small => absurd small (Nat.not_lt_zero id)⟩
  | succ count ih =>
    obtain ⟨changed, same, overrides⟩ := ih
    refine ⟨changed.override count (modes count), same.trans (sameButModes_override _ _ _), ?_⟩
    intro id small
    by_cases isLast : id = count
    · subst isLast
      exact interpolation_override_same changed id (modes id)
    · rw [interpolation_override_other changed count _ isLast]
      exact overrides id (Nat.lt_of_le_of_ne (Nat.le_of_lt_succ small) isLast)

end Setting

def Interpolation.always (on : Bool) : Interpolation :=
  if on then .enabled else .disabled

theorem resolve_always (on inherited : Bool) :
    (Interpolation.always on).resolve inherited = on := by
  cases on <;> rfl

section Redundancy
variable {document : Document} {roots : List NodeId} {metadata : Metadata ι ω}

/-- Every element at and below the roots has its mode as an override of its own. All else is as in
the other store. -/
structure Metadata.Resolves (document : Document) (roots : List NodeId)
    (metadata resolved : Metadata ι ω) : Prop where
  others : metadata.SameButModes resolved
  own : ∀ id outer, document.Trail roots (id :: outer) → (document.element? id).isSome = true →
    resolved.interpolation id = .always (nearestMode metadata.interpolation (id :: outer))

/-- The override makes no difference at the element, given the nearest modes around it. -/
def Metadata.IsRedundant (document : Document) (roots : List NodeId) (metadata : Metadata ι ω)
    (id : NodeId) (mode : Interpolation) : Prop :=
  ∀ outer, document.Trail roots (id :: outer) → (document.element? id).isSome = true →
    mode.resolve (nearestMode metadata.interpolation outer) =
      (metadata.interpolation id).resolve (nearestMode metadata.interpolation outer)

/-- If no node is shared, each element has one mode, which can be made its override. -/
theorem exists_resolves (unique : document.UniqueTrails roots) :
    ∃ resolved, metadata.Resolves document roots resolved := by
  have chosen (id : NodeId) : ∃ mode, ∀ outer, document.Trail roots (id :: outer) →
      (document.element? id).isSome = true →
        mode = Interpolation.always (nearestMode metadata.interpolation (id :: outer)) := by
    by_cases trails : ∃ outer, document.Trail roots (id :: outer)
    · obtain ⟨outer, trail⟩ := trails
      refine ⟨.always (nearestMode metadata.interpolation (id :: outer)), ?_⟩
      intro other otherTrail isElement
      rw [unique id outer other (Document.hasNode_of_isElement isElement) trail otherTrail]
    · exact ⟨.inherit, fun outer trail => absurd ⟨outer, trail⟩ trails⟩
  choose modes isMode using chosen
  obtain ⟨resolved, same, overrides⟩ := exists_sameButModes metadata modes document.size
  refine ⟨resolved, same, ?_⟩
  intro id outer trail isElement
  have isNode : document.hasNode id = true := Document.hasNode_of_isElement isElement
  rw [overrides id (of_decide_eq_true isNode), isMode id outer trail isElement]

theorem sameModes_resolves {resolved : Metadata ι ω}
    (resolves : metadata.Resolves document roots resolved) :
    document.SameModes roots (nearestMode resolved.interpolation)
      (nearestMode metadata.interpolation) := by
  intro id outer trail isElement
  rw [nearestMode_cons, resolves.own id outer trail isElement, resolve_always]

/-- A redundant override changes no nearest mode, by induction from the roots inwards. -/
theorem sameModes_override {id : NodeId} {mode : Interpolation}
    (redundant : metadata.IsRedundant document roots id mode) :
    document.SameModes roots (nearestMode (metadata.override id mode).interpolation)
      (nearestMode metadata.interpolation) := by
  intro inner outer trail isElement
  induction outer generalizing inner with
  | nil =>
    rw [nearestMode_cons, nearestMode_cons]
    by_cases same : inner = id
    · subst same
      rw [interpolation_override_same]
      exact redundant [] trail isElement
    · rw [interpolation_override_other metadata id mode same]
      rfl
  | cons parent outer ih =>
    rw [nearestMode_cons, nearestMode_cons metadata.interpolation,
      ih parent trail.outer trail.isElement]
    by_cases same : inner = id
    · subst same
      rw [interpolation_override_same]
      exact redundant (parent :: outer) trail isElement
    · rw [interpolation_override_other metadata id mode same]

end Redundancy

/-- What is written follows the nearest override on the trail. A template is composed of start tags in
the mode of their element and of texts in the mode around them. If no node is shared, every element
can have its mode as its own override, which compiles to the same. More generally, only the nearest
modes matter, so that a redundant override can be set in any place and dropped from it. -/
theorem compile_follows_nearest_override (document : Document) (roots : List NodeId)
    (unique : document.UniqueTrails roots) (metadata : Metadata ι ω)
    (policies : List (ActivationPolicy ι ω)) (named : SortedMap Text (Provider ι)) :
    let compilation (store : Metadata ι ω) :=
      ((Compiler.fresh ⟨store, policies⟩ document).run roots named).1
    (∀ compiled, (compilation metadata).outcome = .ok compiled →
        ∃ body, compiled.template = body ++ ['\n'] ∧
          document.Composes
            (Surroundings.manner ⟨metadata, policies⟩ (nearestMode metadata.interpolation))
            [] roots body) ∧
      (∃ resolved, metadata.Resolves document roots resolved) ∧
      (∀ resolved, metadata.Resolves document roots resolved →
        compilation resolved = compilation metadata) ∧
      (∀ changed, metadata.SameButModes changed →
        document.SameModes roots (nearestMode changed.interpolation)
          (nearestMode metadata.interpolation) →
        compilation changed = compilation metadata) ∧
      ∀ id mode, metadata.IsRedundant document roots id mode →
        compilation (metadata.override id mode) = compilation metadata := by
  intro compilation
  refine ⟨fun compiled success => compile_composes success, exists_resolves unique, ?_, ?_, ?_⟩
  · intro resolved resolves
    exact compile_sameButModes resolves.others policies document roots named
      (sameModes_resolves resolves)
  · intro changed same modes
    exact compile_sameButModes same policies document roots named modes
  · intro id mode redundant
    exact compile_sameButModes (sameButModes_override metadata id mode) policies document roots
      named (sameModes_override redundant)

/-- An article with interpolation switched off, on again in its section, and off in the emphasis. -/
def toggledArticle : Document :=
  (Document.empty.build (.element "article".toList [] []
    [.text ['$', '\x7b', 'a', '\x7d'],
      .element "section".toList [("title".toList, ['$', '\x7b', 't', '\x7d'])] []
        [.text ['$', '\x7b', 'b', '\x7d'],
          .element "em".toList [] [("note".toList, .string ['$', '\x7b', 'n', '\x7d'])]
            [.text ['$', '\x7b', 'c', '\x7d']],
          .element "div".toList [("lang".toList, ['$', '\x7b', 'l', '\x7d'])] [] []]])).2

def toggles : Metadata Json Text :=
  let outermost := Metadata.override SortedMap.empty 0 .disabled
  (outermost.override 2 .enabled).override 4 .disabled

theorem uniqueTrails_toggledArticle : toggledArticle.UniqueTrails [0] :=
  Document.uniqueTrails_of_parents (by decide +kernel) (by decide +kernel)

theorem trail_of_division : toggledArticle.Trail [0] [6, 2, 0] :=
  ((Document.Trail.outside.step (by decide)).step (by decide +kernel)).step (by decide +kernel)

/-- The article is written by its nearest overrides, and the override that switches interpolation on
in the division as well changes nothing. -/
theorem toggled_article_follows_overrides :
    toggledArticle.UniqueTrails [0] ∧
      let compilation (store : Metadata Json Text) :=
        ((Compiler.fresh ⟨store, []⟩ toggledArticle).run [0] SortedMap.empty).1
      compilation (toggles.override 6 .enabled) = compilation toggles ∧
        ∃ compiled body, (compilation toggles).outcome = .ok compiled ∧
          compiled.template = body ++ ['\n'] ∧
          toggledArticle.Composes
            (Surroundings.manner ⟨toggles, []⟩ (nearestMode toggles.interpolation)) [] [0] body := by
  refine ⟨uniqueTrails_toggledArticle, ?_⟩
  intro compilation
  obtain ⟨composes, -, -, -, redundancy⟩ := compile_follows_nearest_override toggledArticle [0]
    uniqueTrails_toggledArticle toggles [] SortedMap.empty
  have redundant : toggles.IsRedundant toggledArticle [0] 6 .enabled := by
    intro outer trail isElement
    obtain rfl : [2, 0] = outer := uniqueTrails_toggledArticle 6 [2, 0] outer
      (Document.hasNode_of_isElement isElement) trail_of_division trail
    decide +kernel
  have succeeds : (compilation toggles).outcome.toBool = true := by
    decide +kernel
  obtain ⟨compiled, success⟩ := exists_ok succeeds
  obtain ⟨body, written, composed⟩ := composes compiled success
  exact ⟨redundancy 6 .enabled redundant, compiled, body, success, written, composed⟩

end TreeTemplate
