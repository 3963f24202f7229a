import TreeTemplate.Proofs.Document.Walk
import TreeTemplate.Proofs.Template.Filling

/-!
# Tours without interpolation

Where the roots switch interpolation off and nothing below switches it on again, no stop of the tour
is interpolated. In every tour, what follows a text begins a line.
-/
set_option autoImplicit false

namespace TreeTemplate

variable {ι ω : Type}

def PropertyValue.IsScalar : PropertyValue → Prop
  | .json (.array _) => False
  | .json (.object _) => False
  | _ => True

/-- The names at an element have no special characters, its literal properties no arrays or objects,
and its listeners no arguments. -/
structure Surroundings.IsPlainAt (surroundings : Surroundings ι ω) (id : NodeId)
    (element : Element) : Prop where
  tag : IsInert element.tag
  attributes : ∀ name ∈ Entries.keys element.attributes, IsInert name
  properties : ∀ pair ∈ element.properties, IsInert pair.1 ∧ pair.2.IsScalar
  boundAttributes : ∀ name ∈ (surroundings.metadata.ofNode id).attributes.keys, IsInert name
  boundProperties : ∀ name ∈ (surroundings.metadata.ofNode id).properties.keys, IsInert name
  listeners : ∀ pair ∈ (surroundings.metadata.ofNode id).listeners.entries,
    IsInert pair.1 ∧ pair.2.arguments = none

instance PropertyValue.decidableIsScalar (value : PropertyValue) : Decidable value.IsScalar :=
  match value with
  | .bool _ | .number _ | .string _ => .isTrue trivial
  | .json .null | .json (.bool _) | .json (.integer _) | .json (.float _) | .json (.string _) =>
    .isTrue trivial
  | .json (.array _) | .json (.object _) => .isFalse id

instance Surroundings.decidableIsPlainAt (surroundings : Surroundings ι ω) (id : NodeId)
    (element : Element) : Decidable (surroundings.IsPlainAt id element) :=
  decidable_of_iff
    (IsInert element.tag ∧ (∀ name ∈ Entries.keys element.attributes, IsInert name) ∧
      (∀ pair ∈ element.properties, IsInert pair.1 ∧ pair.2.IsScalar) ∧
      (∀ name ∈ (surroundings.metadata.ofNode id).attributes.keys, IsInert name) ∧
      (∀ name ∈ (surroundings.metadata.ofNode id).properties.keys, IsInert name) ∧
      ∀ pair ∈ (surroundings.metadata.ofNode id).listeners.entries,
        IsInert pair.1 ∧ pair.2.arguments = none) <| by
    constructor
    · rintro ⟨tag, attributes, properties, boundAttributes, boundProperties, listeners⟩
      exact ⟨tag, attributes, properties, boundAttributes, boundProperties, listeners⟩
    · rintro ⟨tag, attributes, properties, boundAttributes, boundProperties, listeners⟩
      exact ⟨tag, attributes, properties, boundAttributes, boundProperties, listeners⟩

/-- Interpolation is switched off at the roots, which are elements, and nowhere on again. -/
structure Surroundings.IsDisabled (surroundings : Surroundings ι ω) (document : Document)
    (roots : List NodeId) : Prop where
  top : ∀ root ∈ roots, (document.element? root).isSome = true ∧
    surroundings.metadata.interpolation root = .disabled
  below : ∀ root ∈ roots, ∀ id element, document.Reaches root id →
    document.element? id = some element →
      surroundings.metadata.interpolation id ≠ .enabled ∧ surroundings.IsPlainAt id element
  policies : ∀ policy ∈ surroundings.policies,
    IsInert policy.event ∧ ∀ id, (policy.listener id).arguments = none

def Stop.IsPlain (surroundings : Surroundings ι ω) : Stop → Prop
  | .text _ interpolate _ => interpolate = false
  | .enter _ id element _ interpolate => interpolate = false ∧ surroundings.IsPlainAt id element
  | .leave _ tag _ => IsInert tag
  | .missing _ => True
  | .endless _ => True

theorem resolve_eq_false {mode : Interpolation} {inherited : Bool} (notEnabled : mode ≠ .enabled)
    (off : inherited = false ∨ mode = .disabled) : mode.resolve inherited = false := by
  cases mode with
  | enabled => exact absurd rfl notEnabled
  | disabled => rfl
  | inherit =>
    rcases off with isOff | isDisabled
    · exact isOff
    · cases isDisabled

section Tours
variable {surroundings : Surroundings ι ω} {document : Document} {roots : List NodeId}

/-- Below the roots nothing is interpolated. The mode that a node inherits is off, or the node is a
root, whose own mode is off. -/
theorem plain_tourFrom (disabled : surroundings.IsDisabled document roots)
    (bound depth : Nat) (inherited : Bool) (id : NodeId)
    (reached : ∃ root ∈ roots, document.Reaches root id)
    (off : inherited = false ∨ (document.element? id).isSome = true ∧
      surroundings.metadata.interpolation id = .disabled) :
    ∀ stop ∈ document.tourFrom surroundings.metadata.interpolation bound depth inherited id,
      stop.IsPlain surroundings := by
  induction bound using Nat.strongRecOn generalizing depth inherited id with
  | ind bound ih =>
    cases found : document.node? id with
    | none =>
      rw [Document.tourFrom, found]
      simp [Stop.IsPlain]
    | some node =>
      cases node with
      | text content =>
        have isOff : inherited = false := by
          rcases off with isOff | ⟨isElement, _⟩
          · exact isOff
          · simp [Document.element?, found, Node.element?] at isElement
        rw [tourFrom_text found]
        simp [Stop.IsPlain, isOff]
      | element element =>
        cases bound with
        | zero =>
          rw [Document.tourFrom, found]
          simp [Stop.IsPlain]
        | succ bound =>
          obtain ⟨root, isRoot, reaches⟩ := reached
          obtain ⟨notEnabled, plain⟩ := disabled.below root isRoot id element reaches
            (Document.element?_eq_some_iff.mpr found)
          have mode :
              (surroundings.metadata.interpolation id).resolve inherited = false :=
            resolve_eq_false notEnabled (off.imp_right And.right)
          rw [tourFrom_element found, mode]
          intro stop member
          rcases List.mem_cons.mp member with rfl | later
          · exact ⟨rfl, plain⟩
          · rcases List.mem_append.mp later with below | isEnd
            · obtain ⟨child, isChild, inside⟩ := List.mem_flatMap.mp below
              rw [← Document.children_of_element found] at isChild
              exact ih bound (Nat.lt_succ_self bound) (depth + 1) false child
                ⟨root, isRoot, reaches.tail isChild⟩ (Or.inl rfl) stop inside
            · rw [List.mem_singleton.mp isEnd]
              exact plain.tag

theorem plain_tour (disabled : surroundings.IsDisabled document roots) :
    ∀ stop ∈ document.tour surroundings.metadata.interpolation roots,
      stop.IsPlain surroundings := by
  intro stop member
  obtain ⟨root, isRoot, inside⟩ := List.mem_flatMap.mp member
  exact plain_tourFrom disabled document.size 0 true root
    ⟨root, isRoot, Relation.ReflTransGen.refl⟩ (Or.inr (disabled.top root isRoot)) stop inside

end Tours

def Stop.StartsLine : Stop → Prop
  | .leave _ _ true => False
  | _ => True

def LineFirst (stops : List Stop) : Prop :=
  ∀ stop, stops.head? = some stop → stop.StartsLine

def LinesEnd : List Stop → Prop
  | [] => True
  | .text _ _ _ :: rest => LineFirst rest ∧ LinesEnd rest
  | _ :: rest => LinesEnd rest

theorem lineFirst_cons {stop : Stop} (rest : List Stop) (starts : stop.StartsLine) :
    LineFirst (stop :: rest) := by
  intro first same
  rw [← Option.some.inj same]
  exact starts

/-- Tours keep their lines, whatever lines stand behind them. Behind the start of an element without
children its end follows at once, so that no text stands before it. -/
theorem linesEnd_tourFrom (document : Document) (modes : NodeId → Interpolation)
    (bound depth : Nat) (inherited : Bool) (ids : List NodeId) (rest : List Stop)
    (linesEnd : LinesEnd rest) (lineFirst : LineFirst rest) :
    LinesEnd (ids.flatMap (document.tourFrom modes bound depth inherited) ++ rest) ∧
      LineFirst (ids.flatMap (document.tourFrom modes bound depth inherited) ++ rest) := by
  induction bound using Nat.strongRecOn generalizing depth inherited ids rest with
  | ind bound ihBound =>
    induction ids with
    | nil => exact ⟨linesEnd, lineFirst⟩
    | cons id later ihLater =>
      obtain ⟨linesEndLater, lineFirstLater⟩ := ihLater
      rw [List.flatMap_cons, List.append_assoc]
      cases found : document.node? id with
      | none =>
        rw [Document.tourFrom, found]
        exact ⟨linesEndLater, lineFirst_cons _ trivial⟩
      | some node =>
        cases node with
        | text content =>
          rw [tourFrom_text found]
          exact ⟨⟨lineFirstLater, linesEndLater⟩, lineFirst_cons _ trivial⟩
        | element element =>
          cases bound with
          | zero =>
            rw [Document.tourFrom, found]
            exact ⟨linesEndLater, lineFirst_cons _ trivial⟩
          | succ bound =>
            rw [tourFrom_element found]
            refine ⟨?_, lineFirst_cons _ trivial⟩
            rw [List.cons_append, List.append_assoc]
            change LinesEnd (element.children.flatMap _ ++ ([_] ++ _))
            cases children : element.children with
            | nil => exact linesEndLater
            | cons child others =>
              exact (ihBound bound (Nat.lt_succ_self bound) (depth + 1) _ (child :: others)
                (.leave depth element.tag false :: _) linesEndLater
                (lineFirst_cons _ trivial)).1

theorem linesEnd_tour (document : Document) (modes : NodeId → Interpolation)
    (roots : List NodeId) : LinesEnd (document.tour modes roots) := by
  have lineFirst : LineFirst [] := by
    intro stop impossible
    cases impossible
  have ends := (linesEnd_tourFrom document modes document.size 0 true roots [] trivial lineFirst).1
  rwa [List.append_nil] at ends

end TreeTemplate
