import TreeTemplate.Template.Compiler

/-!
# Faults

A compile fails at a property that cannot be expressed, at an identity without a node, or at an
element that contains itself, and for no other reason.
-/
set_option autoImplicit false

namespace TreeTemplate

variable {ι ω : Type}

theorem exists_ok {ε α : Type} {result : Except ε α} (succeeds : result.toBool = true) :
    ∃ value, result = .ok value := by
  cases result with
  | error reason => cases succeeds
  | ok value => exact ⟨value, rfl⟩

theorem exists_ok_of_any {ε α : Type} {result : Except ε α} {holds : α → Bool}
    (succeeds : result.toOption.any holds = true) :
    ∃ value, result = .ok value ∧ holds value = true := by
  cases result with
  | error reason => cases succeeds
  | ok value => exact ⟨value, rfl, succeeds⟩

def PropertyValue.isNull : PropertyValue → Bool
  | .json .null => true
  | _ => false

/-- Null is the only value without a text. -/
theorem encodeProperty_isNull (interpolate : Bool) (name : Text) (value : PropertyValue) :
    (value.isNull = true ∧ encodeProperty interpolate name value = .error (.unsupportedValue name)) ∨
      (value.isNull = false ∧ ∃ encoded, encodeProperty interpolate name value = .ok encoded) := by
  cases value with
  | bool flag => exact Or.inr ⟨rfl, _, rfl⟩
  | number quantity => exact Or.inr ⟨rfl, _, rfl⟩
  | string content => exact Or.inr ⟨rfl, _, rfl⟩
  | json content =>
    cases content with
    | null => exact Or.inl ⟨rfl, rfl⟩
    | bool flag => exact Or.inr ⟨rfl, _, rfl⟩
    | integer quantity => exact Or.inr ⟨rfl, _, rfl⟩
    | float quantity => exact Or.inr ⟨rfl, _, rfl⟩
    | string text => exact Or.inr ⟨rfl, _, rfl⟩
    | array items => exact Or.inr ⟨rfl, _, rfl⟩
    | object fields => exact Or.inr ⟨rfl, _, rfl⟩

/-- Writing properties fails at the first null. -/
theorem writeProperties_fault (interpolate : Bool) (properties : Entries Text PropertyValue) :
    (writeProperties interpolate properties).2 =
      (properties.find? fun pair => pair.2.isNull).map fun pair => .unsupportedValue pair.1 := by
  induction properties with
  | nil => rfl
  | cons head rest ih =>
    obtain ⟨name, value⟩ := head
    rcases encodeProperty_isNull interpolate name value with
      ⟨isNull, failed⟩ | ⟨notNull, encoded, expressed⟩
    · simp [writeProperties, failed, isNull]
    · simp [writeProperties, expressed, notNull, ih]

/-- The start tag fails exactly if a literal property cannot be expressed. -/
theorem writeStart_fault (surroundings : Surroundings ι ω) (document : Document)
    (registry : Registry ι ω) (depth : Nat) (id : NodeId) (element : Element)
    (inherited interpolate : Bool) :
    (writeStart surroundings document registry depth id element inherited interpolate).fault =
      (writeProperties interpolate
        (element.withoutBound (surroundings.metadata.ofNode id)).properties).2 := by
  rw [writeStart]
  dsimp only
  split
  · rename_i reason found
    exact found.symm
  · rename_i found
    exact found.symm

theorem transcribe_ne_alreadyCompiled (surroundings : Surroundings ι ω) (document : Document)
    (registry : Registry ι ω) (tour : List Stop) :
    (transcribe surroundings document registry tour).fault ≠ some .alreadyCompiled := by
  induction tour generalizing document registry with
  | nil => simp [transcribe]
  | cons stop rest ih =>
    rw [transcribe]
    dsimp only
    split
    · rename_i reason faulty
      cases stop with
      | text depth interpolate content => cases faulty
      | enter depth id element inherited interpolate =>
        rw [Stop.emit, writeStart_fault] at faulty
        rw [writeProperties_fault, Option.map_eq_some_iff] at faulty
        obtain ⟨pair, -, rfl⟩ := faulty
        simp
      | leave depth tag childless => cases faulty
      | missing id =>
        cases faulty
        simp
      | endless id =>
        cases faulty
        simp
    · exact ih _ _

theorem compile_ne_alreadyCompiled (surroundings : Surroundings ι ω) (document : Document)
    (roots : List NodeId) (named : SortedMap Text (Provider ι)) :
    (compile surroundings document roots named).outcome ≠ .error .alreadyCompiled := by
  have possible := transcribe_ne_alreadyCompiled surroundings document (Registry.ofNamed named)
    (document.tour surroundings.metadata.interpolation roots)
  rw [compile]
  dsimp only
  split
  · rename_i reason faulty
    rw [faulty] at possible
    simpa using possible
  · simp

end TreeTemplate
