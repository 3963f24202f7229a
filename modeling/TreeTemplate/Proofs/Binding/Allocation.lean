import TreeTemplate.Proofs.Binding.Names

/-!
# Handing out names

Providers and handlers arrive at a registry in any order, and each is given a name. The search for
the name of a provider needs no bound: `Tries` is the search without one. It ends, since only names of
the caller are passed over, and it takes at most one more candidate than there are such names. The
entries that the registry holds in the end are those of the caller and one for each arrival.
-/
set_option autoImplicit false

namespace TreeTemplate

variable {ι ω : Type}

inductive Tries (taken : SortedMap Text (Provider ι)) : Nat → List Text → Prop where
  | free {ordinal : Nat} (isFree : taken.has (propertyName ordinal) = false) :
      Tries taken ordinal [propertyName ordinal]
  | passed {ordinal : Nat} {later : List Text}
      (isTaken : taken.has (propertyName ordinal) = true) (rest : Tries taken (ordinal + 1) later) :
      Tries taken ordinal (propertyName ordinal :: later)

/-- If a run of taken names ends at a free one, the search tries these and nothing else. -/
theorem tries_iff {taken : SortedMap Text (Provider ι)} {gap : Nat} (ordinal : Nat)
    (allTaken : ∀ offset < gap, taken.has (propertyName (ordinal + offset)) = true)
    (isFree : taken.has (propertyName (ordinal + gap)) = false) (tried : List Text) :
    Tries taken ordinal tried ↔ tried = (List.range' ordinal (gap + 1)).map propertyName := by
  induction gap generalizing ordinal tried with
  | zero =>
    constructor
    · intro tries
      cases tries with
      | free _ => rfl
      | passed isTaken _ => exact absurd (isFree.symm.trans isTaken) Bool.false_ne_true
    · rintro rfl
      exact .free isFree
  | succ gap ih =>
    have isTaken : taken.has (propertyName ordinal) = true := allTaken 0 (Nat.succ_pos _)
    have allBehind : ∀ offset < gap, taken.has (propertyName (ordinal + 1 + offset)) = true := by
      intro offset small
      have further := allTaken (offset + 1) (by omega)
      rwa [Nat.add_comm offset, ← Nat.add_assoc] at further
    rw [Nat.add_comm gap, ← Nat.add_assoc] at isFree
    have behind := ih (ordinal + 1) allBehind isFree
    rw [List.range'_succ, List.map_cons]
    constructor
    · intro tries
      cases tries with
      | free firstFree => exact absurd (firstFree.symm.trans isTaken) Bool.false_ne_true
      | passed _ rest => rw [(behind _).mp rest]
    · rintro rfl
      exact .passed isTaken ((behind _).mpr rfl)

/-- The names of the ordinals below a bound, without those of the caller, are the first of the
sequence. -/
theorem filter_propertyName_range (named : SortedMap Text (Provider ι)) (bound : Nat) :
    ((List.range bound).map propertyName).filter (fun name => !named.has name) =
      (List.range (Nat.count (IsFree named) bound)).map (syntheticName named) := by
  induction bound with
  | zero => simp
  | succ bound ih =>
    rw [List.range_succ, List.map_append, List.filter_append, ih, Nat.count_succ, List.map_singleton]
    by_cases isFree : IsFree named bound
    · have last : syntheticName named (Nat.count (IsFree named) bound) = propertyName bound := by
        rw [syntheticName, Nat.nth_count isFree]
      have kept : [propertyName bound].filter (fun name => !named.has name) = [propertyName bound] := by
        rw [IsFree] at isFree
        simp [isFree]
      rw [if_pos isFree, List.range_succ, List.map_append, List.map_singleton, last, kept]
    · have dropped : [propertyName bound].filter (fun name => !named.has name) = [] := by
        rw [IsFree, Bool.not_eq_false] at isFree
        simp [isFree]
      rw [if_neg isFree, dropped, List.append_nil, Nat.add_zero]

namespace Registry

/-- The search for the name of a provider tries these candidates and ends at the name that is given. -/
structure SearchEnds (registry : Registry ι ω) (provider : Provider ι) (candidates : List Text) :
    Prop where
  exactly : ∀ tried, Tries registry.properties registry.nextProperty tried ↔ tried = candidates
  last : candidates.getLast? = some (registry.addProperty provider).1
  counted : (registry.addProperty provider).2.nextProperty =
    registry.nextProperty + candidates.length

section Steps
variable {named : SortedMap Text (Provider ι)} {providers : List (Provider ι)}
  {handlers : List (Handler ι ω)} {registry : Registry ι ω}

/-- Only names of the caller are passed over, so the search is over after as many and one more. -/
theorem Records.search_ends (records : Records named providers handlers registry)
    (provider : Provider ι) :
    ∃ candidates, registry.SearchEnds provider candidates ∧
      candidates.length ≤ named.size + 1 := by
  have bounds := firstFree_bounds registry.properties registry.properties.size registry.nextProperty
  obtain ⟨gap, found⟩ := Nat.exists_eq_add_of_le bounds.1
  have isFree := firstFree_isFree registry.properties registry.nextProperty
  have allTaken : ∀ offset < gap,
      registry.properties.has (propertyName (registry.nextProperty + offset)) = true := by
    intro offset small
    exact firstFree_passes registry.properties registry.properties.size registry.nextProperty _
      (by omega) (by omega)
  have ofCaller : ∀ offset < gap,
      named.has (propertyName (registry.nextProperty + offset)) = true :=
    fun offset small => (records.has_iff _ (by omega)).mp (allTaken offset small)
  rw [found] at isFree
  refine ⟨_, ⟨tries_iff _ allTaken isFree, ?_, ?_⟩, ?_⟩
  · rw [List.range'_1_concat, List.map_append, List.map_singleton, List.getLast?_concat,
      Registry.addProperty, found]
  · rw [List.length_map, List.length_range', Registry.addProperty, found]
    rfl
  · rw [List.length_map, List.length_range']
    exact Nat.succ_le_succ (le_size_of_taken named registry.nextProperty gap ofCaller)

/-- Every ordinal that has been tried is that of an entry, so a counter of the width that counts the
entries does not overflow. -/
theorem Records.nextProperty_le_size (records : Records named providers handlers registry) :
    registry.nextProperty ≤ registry.properties.size := by
  refine le_size_of_taken registry.properties 0 _ ?_
  intro ordinal small
  rw [Nat.zero_add]
  by_cases isFree : IsFree named ordinal
  · have place : Nat.count (IsFree named) ordinal < providers.length := by
      rw [← records.counted]
      exact Nat.count_strict_mono isFree small
    have held := records.properties.holds _ _ (List.getElem?_eq_getElem place)
    rw [syntheticName, Nat.nth_count isFree] at held
    exact (registry.properties.has_iff_exists _).mpr ⟨_, held⟩
  · rw [IsFree, Bool.not_eq_false] at isFree
    exact records.has_of_named isFree

theorem addProperty_isNew (registry : Registry ι ω) (provider : Provider ι) :
    registry.properties.has (registry.addProperty provider).1 = false :=
  firstFree_isFree registry.properties registry.nextProperty

theorem Records.addFunction_isNew (records : Records named providers handlers registry)
    (handler : Handler ι ω) :
    registry.functions.has (registry.addFunction handler).1 = false := by
  rw [Bool.eq_false_iff, records.addFunction_name handler]
  intro present
  rcases records.functions.nothingElse _ present with isGiven | ⟨place, small, same⟩
  · exact isGiven
  · have placeExact := functionName_injective same
    omega

end Steps

/-- The registry has handed out these names, each to its provider or handler, in this order: it holds
the caller's properties and one entry for each of them. -/
structure HandedOut (named : SortedMap Text (Provider ι)) (properties : Entries Text (Provider ι))
    (functions : Entries Text (Handler ι ω)) (registry : Registry ι ω) : Prop where
  records : Records named (properties.map Prod.snd) (functions.map Prod.snd) registry
  propertyNames :
    Entries.keys properties = (List.range properties.length).map (syntheticName named)
  functionNames : Entries.keys functions = (List.range functions.length).map functionName
  propertyEntries : registry.properties.entries.Perm (named.entries ++ properties)
  functionEntries : registry.functions.entries.Perm functions

theorem handedOut_ofNamed (named : SortedMap Text (Provider ι)) :
    HandedOut named [] [] (ofNamed named : Registry ι ω) where
  records := records_ofNamed named
  propertyNames := rfl
  functionNames := rfl
  propertyEntries := by
    rw [List.append_nil]
    exact List.Perm.refl _
  functionEntries := List.Perm.refl _

/-- Numbered names stay so when the next one joins them. -/
theorem keys_concat {nameOf : Nat → Text} {α : Type} {entries : Entries Text α}
    (names : Entries.keys entries = (List.range entries.length).map nameOf) {name : Text}
    (next : name = nameOf entries.length) (value : α) :
    Entries.keys (entries ++ [(name, value)]) =
      (List.range (entries ++ [(name, value)]).length).map nameOf := by
  rw [Entries.keys] at names
  rw [Entries.keys, List.map_append, names, List.length_append, List.length_singleton,
    List.range_succ, List.map_append, List.map_singleton, List.map_singleton, next]

section Runs
variable {named : SortedMap Text (Provider ι)} {properties : Entries Text (Provider ι)}
  {functions : Entries Text (Handler ι ω)} {registry : Registry ι ω}

theorem HandedOut.addProperty (handedOut : HandedOut named properties functions registry)
    (provider : Provider ι) :
    HandedOut named (properties ++ [((registry.addProperty provider).1, provider)]) functions
      (registry.addProperty provider).2 := by
  have next := handedOut.records.addProperty_name provider
  have records := handedOut.records.addProperty provider
  have entries := SortedMap.perm_insert_new registry.properties _ provider
    (registry.addProperty_isNew provider)
  have extended := entries.trans (handedOut.propertyEntries.append_right _)
  rw [List.length_map] at next
  rw [List.append_assoc] at extended
  refine ⟨?_, keys_concat handedOut.propertyNames next provider, handedOut.functionNames, extended,
    handedOut.functionEntries⟩
  rwa [List.map_append]

theorem HandedOut.addFunction (handedOut : HandedOut named properties functions registry)
    (handler : Handler ι ω) :
    HandedOut named properties (functions ++ [((registry.addFunction handler).1, handler)])
      (registry.addFunction handler).2 := by
  have next := handedOut.records.addFunction_name handler
  have records := handedOut.records.addFunction handler
  have entries := SortedMap.perm_insert_new registry.functions _ handler
    (handedOut.records.addFunction_isNew handler)
  rw [List.length_map] at next
  refine ⟨?_, handedOut.propertyNames, keys_concat handedOut.functionNames next handler,
    handedOut.propertyEntries, entries.trans (handedOut.functionEntries.append_right _)⟩
  rwa [List.map_append]

end Runs

end Registry

/-! ## Arrivals -/

inductive Arrival (ι ω : Type) where
  | provider (provider : Provider ι)
  | handler (handler : Handler ι ω)

namespace Arrival

def provider? : Arrival ι ω → Option (Provider ι)
  | provider own => some own
  | handler _ => none

def handler? : Arrival ι ω → Option (Handler ι ω)
  | provider _ => none
  | handler own => some own

end Arrival

def Entries.ofKind {κ β γ : Type} (kind : β → Option γ) (entries : Entries κ β) : Entries κ γ :=
  entries.filterMap fun pair => (kind pair.2).map (pair.1, ·)

theorem Entries.map_snd_ofKind {κ β γ : Type} (kind : β → Option γ) (entries : Entries κ β) :
    (Entries.ofKind kind entries).map Prod.snd = (entries.map Prod.snd).filterMap kind := by
  rw [ofKind, List.map_filterMap, List.filterMap_map]
  congr 1
  funext pair
  cases found : kind pair.2 <;> simp [found]

namespace Registry

def receive (registry : Registry ι ω) : Arrival ι ω → Text × Registry ι ω
  | .provider provider => registry.addProperty provider
  | .handler handler => registry.addFunction handler

def receiveAll (registry : Registry ι ω) :
    List (Arrival ι ω) → Entries Text (Arrival ι ω) × Registry ι ω
  | [] => ([], registry)
  | arrival :: rest =>
    let (name, extended) := registry.receive arrival
    let (given, final) := extended.receiveAll rest
    ((name, arrival) :: given, final)

theorem receiveAll_cons (registry : Registry ι ω) (arrival : Arrival ι ω)
    (rest : List (Arrival ι ω)) :
    registry.receiveAll (arrival :: rest) =
      (((registry.receive arrival).1, arrival) :: ((registry.receive arrival).2.receiveAll rest).1,
        ((registry.receive arrival).2.receiveAll rest).2) := rfl

theorem map_snd_receiveAll (registry : Registry ι ω) (arrivals : List (Arrival ι ω)) :
    (registry.receiveAll arrivals).1.map Prod.snd = arrivals := by
  induction arrivals generalizing registry with
  | nil => rfl
  | cons arrival rest ih => rw [receiveAll_cons, List.map_cons, ih]

theorem HandedOut.receiveAll {named : SortedMap Text (Provider ι)}
    {properties : Entries Text (Provider ι)} {functions : Entries Text (Handler ι ω)}
    {registry : Registry ι ω} (handedOut : HandedOut named properties functions registry)
    (arrivals : List (Arrival ι ω)) :
    HandedOut named
      (properties ++ Entries.ofKind Arrival.provider? (registry.receiveAll arrivals).1)
      (functions ++ Entries.ofKind Arrival.handler? (registry.receiveAll arrivals).1)
      (registry.receiveAll arrivals).2 := by
  induction arrivals generalizing properties functions registry with
  | nil =>
    have nothing : HandedOut named (properties ++ []) (functions ++ []) registry := by
      rwa [List.append_nil, List.append_nil]
    exact nothing
  | cons arrival rest ih =>
    cases arrival with
    | provider provider =>
      have later := ih (handedOut.addProperty provider)
      rwa [List.append_assoc] at later
    | handler handler =>
      have later := ih (handedOut.addFunction handler)
      rwa [List.append_assoc] at later

/-- Whatever has arrived, in whatever order, has been given a name. The search for the name of the
next provider ends after at most one more candidate than the caller has named properties, and all
searches so far have tried no more candidates than there are properties. The names of the providers
are the first ones that the caller has not taken, whatever handlers stand in between, and those of the
handlers have no gaps. The next name of either kind is new, so the bindings hold what the caller has
named and one entry for each arrival. -/
theorem arrivals_get_first_free_names (named : SortedMap Text (Provider ι))
    (arrivals : List (Arrival ι ω)) :
    let given := ((ofNamed named).receiveAll arrivals).1
    let registry := ((ofNamed named).receiveAll arrivals).2
    let properties := Entries.ofKind Arrival.provider? given
    let functions := Entries.ofKind Arrival.handler? given
    given.map Prod.snd = arrivals ∧
      (∀ provider, ∃ candidates, registry.SearchEnds provider candidates ∧
        candidates.length ≤ named.size + 1) ∧
      registry.nextProperty ≤ registry.properties.size ∧
      Entries.keys properties =
        ((List.range registry.nextProperty).map propertyName).filter (fun name => !named.has name) ∧
      Entries.keys properties =
        (List.range (arrivals.filterMap Arrival.provider?).length).map (syntheticName named) ∧
      Entries.keys functions =
        (List.range (arrivals.filterMap Arrival.handler?).length).map functionName ∧
      (∀ provider, registry.properties.has (registry.addProperty provider).1 = false) ∧
      (∀ handler, registry.functions.has (registry.addFunction handler).1 = false) ∧
      registry.finish.properties.entries.Perm (named.entries ++ properties) ∧
      registry.finish.functions.entries.Perm functions := by
  intro given registry properties functions
  have handedOut : HandedOut named properties functions registry :=
    (handedOut_ofNamed named).receiveAll arrivals
  have arrived : given.map Prod.snd = arrivals := map_snd_receiveAll _ arrivals
  have providers : properties.map Prod.snd = arrivals.filterMap Arrival.provider? := by
    rw [Entries.map_snd_ofKind, arrived]
  have handlers : functions.map Prod.snd = arrivals.filterMap Arrival.handler? := by
    rw [Entries.map_snd_ofKind, arrived]
  have records := handedOut.records
  refine ⟨arrived, records.search_ends, records.nextProperty_le_size, ?_, ?_, ?_,
    registry.addProperty_isNew, records.addFunction_isNew, handedOut.propertyEntries,
    handedOut.functionEntries⟩
  · rw [handedOut.propertyNames, filter_propertyName_range, records.counted, List.length_map]
  · rw [handedOut.propertyNames, ← providers, List.length_map]
  · rw [handedOut.functionNames, ← handlers, List.length_map]

/-- A handler between two providers, and a caller that has taken every other name. -/
example :
    let own : Provider Json := fieldProvider "own".toList
    let named := SortedMap.ofList [(propertyName 0, own), (propertyName 2, own)]
    let arrivals : List (Arrival Json Text) := [.provider own, .handler fun _ _ => [], .provider own]
    Entries.keys ((ofNamed named).receiveAll arrivals).1 =
      ["property1".toList, "function0".toList, "property3".toList] := by
  decide +kernel

end Registry

end TreeTemplate
