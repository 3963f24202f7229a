import Mathlib.Data.Nat.Nth
import TreeTemplate.Binding.Registry
import TreeTemplate.Proofs.SortedMap
import TreeTemplate.Proofs.Text.Numeral

/-!
# Synthetic names

The names that a registry hands out to providers are the members of the sequence `property0`,
`property1`, … that the caller has not taken, in their order, and those that it hands out to
handlers are `function0`, `function1`, …. `Registry.Records` says which bindings a registry holds
after any number of both; the two step lemmas keep it.
-/
set_option autoImplicit false

namespace TreeTemplate

variable {ι ω : Type}

theorem propertyName_injective : Function.Injective propertyName := by
  intro left right same
  exact Text.numeral_injective left right (List.append_cancel_left same)

theorem functionName_injective : Function.Injective functionName := by
  intro left right same
  exact Text.numeral_injective left right (List.append_cancel_left same)

def IsFree (named : SortedMap Text (Provider ι)) (ordinal : Nat) : Prop :=
  named.has (propertyName ordinal) = false

instance decidableIsFree (named : SortedMap Text (Provider ι)) :
    DecidablePred (IsFree named) :=
  fun ordinal => inferInstanceAs (Decidable (named.has (propertyName ordinal) = false))

/-- The member at a place of the sequence of property names that leaves out what the caller has
taken. -/
noncomputable def syntheticName (named : SortedMap Text (Provider ι)) (place : Nat) : Text :=
  propertyName (Nat.nth (IsFree named) place)

theorem infinite_isFree (named : SortedMap Text (Provider ι)) :
    (Set.ofPred (IsFree named)).Infinite := by
  have takenFinite : (Set.preimage propertyName {name | name ∈ named.keys}).Finite :=
    (List.finite_toSet named.keys).preimage propertyName_injective.injOn
  have free : (Set.preimage propertyName {name | name ∈ named.keys})ᶜ =
      Set.ofPred (IsFree named) := by
    ext ordinal
    change propertyName ordinal ∉ named.keys ↔ named.has (propertyName ordinal) = false
    rw [← SortedMap.has_iff_mem_keys, Bool.not_eq_true]
  rw [← free]
  exact takenFinite.infinite_compl

theorem syntheticName_injective (named : SortedMap Text (Provider ι)) :
    Function.Injective (syntheticName named) :=
  propertyName_injective.comp (Nat.nth_injective (infinite_isFree named))

theorem not_has_syntheticName (named : SortedMap Text (Provider ι)) (place : Nat) :
    named.has (syntheticName named place) = false :=
  Nat.nth_mem_of_infinite (infinite_isFree named) place

structure Enumerates {α : Type} (nameOf : Nat → Text) (given : Text → Prop) (values : List α)
    (map : SortedMap Text α) : Prop where
  holds : ∀ place value, values[place]? = some value → map.find? (nameOf place) = some value
  nothingElse : ∀ name, map.has name = true →
    given name ∨ ∃ place < values.length, name = nameOf place

section Enumeration
variable {α : Type} {nameOf : Nat → Text} {given : Text → Prop} {values : List α}
  {map : SortedMap Text α}

theorem Enumerates.insert (enumerates : Enumerates nameOf given values map)
    (injective : Function.Injective nameOf) (value : α) :
    Enumerates nameOf given (values ++ [value]) (map.insert (nameOf values.length) value) := by
  refine ⟨?_, ?_⟩
  · intro place other found
    rcases Nat.lt_trichotomy place values.length with earlier | last | beyond
    · rw [List.getElem?_append_left earlier] at found
      have apart : nameOf place ≠ nameOf values.length := by
        intro same
        have samePlace := injective same
        omega
      rw [SortedMap.find?_insert_other _ _ _ _ apart]
      exact enumerates.holds place other found
    · subst last
      obtain rfl : value = other := by simpa using found
      rw [SortedMap.find?_insert_same]
    · rw [List.getElem?_eq_none (by simpa using beyond)] at found
      cases found
  · intro name present
    rw [SortedMap.has_insert_iff] at present
    rw [List.length_append, List.length_singleton]
    rcases present with same | earlier
    · exact Or.inr ⟨values.length, by omega, same⟩
    · rcases enumerates.nothingElse name earlier with isGiven | ⟨place, small, same⟩
      · exact Or.inl isGiven
      · exact Or.inr ⟨place, by omega, same⟩

theorem Enumerates.find?_cases (enumerates : Enumerates nameOf given values map) {name : Text}
    {value : α} (found : map.find? name = some value) :
    given name ∨ ∃ place, values[place]? = some value ∧ name = nameOf place := by
  have present : map.has name = true := (map.has_iff_exists name).mpr ⟨value, found⟩
  rcases enumerates.nothingElse name present with isGiven | ⟨place, small, same⟩
  · exact Or.inl isGiven
  · have isHeld := enumerates.holds place _ (List.getElem?_eq_getElem small)
    rw [← same, found] at isHeld
    rw [Option.some.inj isHeld]
    exact Or.inr ⟨place, List.getElem?_eq_getElem small, same⟩

end Enumeration

namespace Registry

theorem firstFree_bounds (taken : SortedMap Text (Provider ι)) (bound ordinal : Nat) :
    ordinal ≤ firstFree taken bound ordinal ∧ firstFree taken bound ordinal ≤ ordinal + bound := by
  induction bound generalizing ordinal with
  | zero => exact ⟨Nat.le_refl _, Nat.le_refl _⟩
  | succ bound ih =>
    have later := ih (ordinal + 1)
    rw [firstFree]
    split
    · omega
    · omega

theorem firstFree_passes (taken : SortedMap Text (Provider ι)) (bound ordinal passed : Nat)
    (atLeast : ordinal ≤ passed) (before : passed < firstFree taken bound ordinal) :
    taken.has (propertyName passed) = true := by
  induction bound generalizing ordinal with
  | zero =>
    rw [firstFree] at before
    omega
  | succ bound ih =>
    rw [firstFree] at before
    split at before
    · rename_i isTaken
      rcases Nat.eq_or_lt_of_le atLeast with same | later
      · rwa [← same]
      · exact ih (ordinal + 1) later before
    · omega

theorem firstFree_stops (taken : SortedMap Text (Provider ι)) (bound ordinal : Nat)
    (early : firstFree taken bound ordinal < ordinal + bound) :
    taken.has (propertyName (firstFree taken bound ordinal)) = false := by
  induction bound generalizing ordinal with
  | zero =>
    rw [firstFree] at early
    omega
  | succ bound ih =>
    rw [firstFree] at early ⊢
    split
    · rename_i isTaken
      rw [if_pos isTaken] at early
      exact ih (ordinal + 1) (by omega)
    · rename_i isFree
      simpa using isFree

/-- A map that holds the property names of ordinals in a row has at least as many entries. -/
theorem le_size_of_taken (taken : SortedMap Text (Provider ι)) (ordinal gap : Nat)
    (allTaken : ∀ offset < gap, taken.has (propertyName (ordinal + offset)) = true) :
    gap ≤ taken.size := by
  let names := (List.range gap).map fun offset => propertyName (ordinal + offset)
  have distinct : names.Nodup := by
    refine List.Nodup.map ?_ List.nodup_range
    intro left right same
    exact Nat.add_left_cancel (propertyName_injective same)
  have included : names ⊆ taken.keys := by
    intro name member
    obtain ⟨offset, small, rfl⟩ := List.mem_map.mp member
    rw [← SortedMap.has_iff_mem_keys]
    exact allTaken offset (List.mem_range.mp small)
  have bound := (List.subperm_of_subset distinct included).length_le
  simpa [names, SortedMap.keys, Entries.keys, SortedMap.size] using bound

/-- There are more candidates than taken names, so the search ends at a free one. -/
theorem firstFree_isFree (taken : SortedMap Text (Provider ι)) (ordinal : Nat) :
    taken.has (propertyName (firstFree taken taken.size ordinal)) = false := by
  by_contra isTaken
  rw [Bool.not_eq_false] at isTaken
  obtain ⟨least, most⟩ := firstFree_bounds taken taken.size ordinal
  have last : firstFree taken taken.size ordinal = ordinal + taken.size := by
    by_contra early
    have stops := firstFree_stops taken taken.size ordinal (by omega)
    rw [isTaken] at stops
    exact Bool.noConfusion stops
  have tooMany : taken.size + 1 ≤ taken.size := by
    refine le_size_of_taken taken ordinal _ ?_
    intro offset small
    by_cases isLast : offset = taken.size
    · rw [isLast, ← last]
      exact isTaken
    · exact firstFree_passes taken taken.size ordinal (ordinal + offset) (by omega) (by omega)
  omega

/-! ## What a registry holds -/

/-- The registry after the providers and the handlers have arrived in this order: the caller's
properties, one synthetic name for each provider and one function name for each handler, and
nothing else. The free ordinals below the next one are those of the providers. -/
structure Records (named : SortedMap Text (Provider ι)) (providers : List (Provider ι))
    (handlers : List (Handler ι ω)) (registry : Registry ι ω) : Prop where
  counted : Nat.count (IsFree named) registry.nextProperty = providers.length
  numbered : registry.nextFunction = handlers.length
  keepsNamed : ∀ name provider, named.find? name = some provider →
    registry.properties.find? name = some provider
  properties : Enumerates (syntheticName named) (fun name => named.has name = true) providers
    registry.properties
  functions : Enumerates functionName (fun _ => False) handlers registry.functions

theorem records_ofNamed (named : SortedMap Text (Provider ι)) :
    Records named [] [] (ofNamed named : Registry ι ω) where
  counted := Nat.count_zero _
  numbered := rfl
  keepsNamed _ _ found := found
  properties := ⟨fun _ _ found => by simp at found, fun _ present => Or.inl present⟩
  functions := by
    refine ⟨fun _ _ found => by simp at found, ?_⟩
    intro name present
    simp [ofNamed, SortedMap.has, SortedMap.find?_empty] at present

section Steps
variable {named : SortedMap Text (Provider ι)} {providers : List (Provider ι)}
  {handlers : List (Handler ι ω)} {registry : Registry ι ω}

theorem Records.has_of_named (records : Records named providers handlers registry) {name : Text}
    (isNamed : named.has name = true) : registry.properties.has name = true := by
  obtain ⟨provider, found⟩ := (named.has_iff_exists name).mp isNamed
  exact (registry.properties.has_iff_exists name).mpr ⟨provider, records.keepsNamed _ _ found⟩

/-- Above the ordinals tried so far, only names of the caller are taken. -/
theorem Records.has_iff (records : Records named providers handlers registry) (ordinal : Nat)
    (ahead : registry.nextProperty ≤ ordinal) :
    registry.properties.has (propertyName ordinal) = true ↔
      named.has (propertyName ordinal) = true := by
  constructor
  · intro present
    rcases records.properties.nothingElse _ present with isNamed | ⟨place, small, same⟩
    · exact isNamed
    · exfalso
      have ordinalExact : ordinal = Nat.nth (IsFree named) place := propertyName_injective same
      have below := Nat.nth_lt_of_lt_count (p := IsFree named)
        (show place < Nat.count (IsFree named) registry.nextProperty by rwa [records.counted])
      omega
  · exact records.has_of_named

/-- The ordinal that the search ends at is the next free one. -/
theorem Records.firstFree_eq (records : Records named providers handlers registry) :
    firstFree registry.properties registry.properties.size registry.nextProperty =
      Nat.nth (IsFree named) providers.length := by
  generalize found : firstFree registry.properties registry.properties.size
    registry.nextProperty = ordinal
  have bounds := firstFree_bounds registry.properties registry.properties.size registry.nextProperty
  have free := firstFree_isFree registry.properties registry.nextProperty
  rw [found] at bounds free
  have isFree : IsFree named ordinal := by
    rw [IsFree, Bool.eq_false_iff]
    intro isNamed
    have present := (records.has_iff ordinal bounds.1).mpr isNamed
    rw [free] at present
    exact Bool.noConfusion present
  have passed : ∀ between, registry.nextProperty ≤ between → between < ordinal →
      ¬IsFree named between := by
    intro between atLeast before
    have present := firstFree_passes registry.properties registry.properties.size
      registry.nextProperty between atLeast (by rwa [found])
    rw [records.has_iff between atLeast] at present
    simp [IsFree, present]
  have countExact : Nat.count (IsFree named) ordinal = providers.length := by
    obtain ⟨gap, rfl⟩ := Nat.exists_eq_add_of_le bounds.1
    have noneBetween :
        Nat.count (fun offset => IsFree named (registry.nextProperty + offset)) gap = 0 :=
      Nat.count_of_forall_not fun {offset} small =>
        passed (registry.nextProperty + offset) (by omega) (by omega)
    rw [Nat.count_add, noneBetween, records.counted, Nat.add_zero]
  rw [← countExact, Nat.nth_count isFree]

theorem Records.addProperty_name (records : Records named providers handlers registry)
    (provider : Provider ι) :
    (registry.addProperty provider).1 = syntheticName named providers.length := by
  rw [syntheticName, ← records.firstFree_eq]
  rfl

theorem Records.addProperty (records : Records named providers handlers registry)
    (provider : Provider ι) :
    Records named (providers ++ [provider]) handlers (registry.addProperty provider).2 := by
  have properties : (registry.addProperty provider).2.properties =
      registry.properties.insert (syntheticName named providers.length) provider := by
    rw [← records.addProperty_name provider]
    rfl
  have next : (registry.addProperty provider).2.nextProperty =
      Nat.nth (IsFree named) providers.length + 1 := by
    rw [← records.firstFree_eq]
    rfl
  refine ⟨?_, records.numbered, ?_, ?_, records.functions⟩
  · have isFree := Nat.nth_mem_of_infinite (infinite_isFree named) providers.length
    rw [next, Nat.count_succ, if_pos isFree, Nat.count_nth_of_infinite (infinite_isFree named)]
    simp
  · intro name other found
    have apart : name ≠ syntheticName named providers.length := by
      rintro rfl
      have present := (named.has_iff_exists _).mpr ⟨other, found⟩
      rw [not_has_syntheticName] at present
      exact Bool.noConfusion present
    rw [properties, SortedMap.find?_insert_other _ _ _ _ apart]
    exact records.keepsNamed name other found
  · rw [properties]
    exact records.properties.insert (syntheticName_injective named) provider

theorem Records.addFunction_name (records : Records named providers handlers registry)
    (handler : Handler ι ω) :
    (registry.addFunction handler).1 = functionName handlers.length := by
  rw [← records.numbered]
  rfl

theorem Records.addFunction (records : Records named providers handlers registry)
    (handler : Handler ι ω) :
    Records named providers (handlers ++ [handler]) (registry.addFunction handler).2 := by
  have functions : (registry.addFunction handler).2.functions =
      registry.functions.insert (functionName handlers.length) handler := by
    rw [← records.numbered]
    rfl
  refine ⟨records.counted, ?_, records.keepsNamed, records.properties, ?_⟩
  · rw [List.length_append, List.length_singleton, ← records.numbered]
    rfl
  · rw [functions]
    exact records.functions.insert functionName_injective handler

/-- The properties are the caller's and the synthetic ones, each name with its own provider. -/
theorem Records.find?_property_iff (records : Records named providers handlers registry)
    (name : Text) (provider : Provider ι) :
    registry.properties.find? name = some provider ↔
      named.find? name = some provider ∨
        ∃ place, providers[place]? = some provider ∧ name = syntheticName named place := by
  constructor
  · intro found
    rcases records.properties.find?_cases found with isNamed | isSynthetic
    · obtain ⟨own, ownFound⟩ := (named.has_iff_exists name).mp isNamed
      have kept := records.keepsNamed name own ownFound
      rw [found] at kept
      rw [Option.some.inj kept]
      exact Or.inl ownFound
    · exact Or.inr isSynthetic
  · rintro (isNamed | ⟨place, isProvider, rfl⟩)
    · exact records.keepsNamed name provider isNamed
    · exact records.properties.holds place provider isProvider

/-- The functions are the synthetic ones, each name with its own handler. -/
theorem Records.find?_function_iff (records : Records named providers handlers registry)
    (name : Text) (handler : Handler ι ω) :
    registry.functions.find? name = some handler ↔
      ∃ place, handlers[place]? = some handler ∧ name = functionName place := by
  constructor
  · intro found
    rcases records.functions.find?_cases found with isGiven | isNumbered
    · exact absurd isGiven id
    · exact isNumbered
  · rintro ⟨place, isHandler, rfl⟩
    exact records.functions.holds place handler isHandler

/-- There is one function for each handler. -/
theorem Records.size_functions (records : Records named providers handlers registry) :
    registry.functions.size = handlers.length := by
  let names := (List.range handlers.length).map functionName
  have distinct : names.Nodup :=
    List.Nodup.map functionName_injective List.nodup_range
  have same (name : Text) : name ∈ registry.functions.keys ↔ name ∈ names := by
    rw [← SortedMap.has_iff_mem_keys, SortedMap.has_iff_exists]
    simp only [records.find?_function_iff, names, List.mem_map, List.mem_range]
    constructor
    · rintro ⟨handler, place, isHandler, rfl⟩
      exact ⟨place, (List.getElem?_eq_some_iff.mp isHandler).1, rfl⟩
    · rintro ⟨place, small, rfl⟩
      exact ⟨_, place, List.getElem?_eq_getElem small, rfl⟩
  have keys := distinct_of_ascending registry.functions.ascending
  have length := ((List.perm_ext_iff_of_nodup keys distinct).mpr same).length_eq
  simpa [names, SortedMap.size, Entries.keys] using length

end Steps

end Registry

end TreeTemplate
