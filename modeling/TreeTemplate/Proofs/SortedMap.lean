import Mathlib.Data.List.Basic
import Mathlib.Data.List.Induction
import TreeTemplate.SortedMap

/-!
# Looking up keys

What inserting, removing and mapping do to the look-ups of a sorted map, and that a map is what is
looked up in it. A map that is filled from a list holds the last value of each key.
-/
set_option autoImplicit false

namespace TreeTemplate

namespace Entries

variable {κ β γ : Type}

def IsLast (pairs : Entries κ β) (key : κ) (value : β) : Prop :=
  ∃ before behind, pairs = before ++ (key, value) :: behind ∧ key ∉ keys behind

theorem isLast_concat (pairs : Entries κ β) (key name : κ) (value own : β) :
    IsLast (pairs ++ [(name, own)]) key value ↔
      (key = name ∧ value = own) ∨ (key ≠ name ∧ IsLast pairs key value) := by
  constructor
  · rintro ⟨before, behind, shape, absent⟩
    rcases List.eq_nil_or_concat' behind with rfl | ⟨front, last, rfl⟩
    · obtain ⟨-, isLast⟩ := List.append_inj' shape rfl
      obtain ⟨isName, isOwn⟩ := Prod.mk.inj (List.singleton_inj.mp isLast)
      exact Or.inl ⟨isName.symm, isOwn.symm⟩
    · rw [← List.cons_append, ← List.append_assoc] at shape
      obtain ⟨rfl, isLast⟩ := List.append_inj' shape rfl
      rw [keys, List.map_append, List.mem_append, not_or, ← isLast] at absent
      exact Or.inr ⟨by simpa using absent.2, before, front, rfl, absent.1⟩
  · rintro (⟨rfl, rfl⟩ | ⟨apart, before, behind, rfl, absent⟩)
    · exact ⟨pairs, [], rfl, List.not_mem_nil⟩
    · refine ⟨before, behind ++ [(name, own)], by simp, ?_⟩
      rw [keys, List.map_append, List.mem_append, not_or]
      exact ⟨absent, by simpa using apart⟩

theorem IsLast.mem {pairs : Entries κ β} {key : κ} {value : β} (isLast : IsLast pairs key value) :
    (key, value) ∈ pairs := by
  obtain ⟨before, behind, rfl, -⟩ := isLast
  exact List.mem_append_right _ List.mem_cons_self

variable [DecidableEq κ]

theorem lookup_eq_none_iff (key : κ) (entries : Entries κ β) :
    lookup key entries = none ↔ key ∉ keys entries := by
  induction entries with
  | nil => simp [lookup, keys]
  | cons head rest ih =>
    obtain ⟨name, value⟩ := head
    by_cases same : name = key
    · simp [lookup, keys, same]
    · have tail : key ∉ keys ((name, value) :: rest) ↔ key ∉ keys rest := by
        simp [keys, Ne.symm same]
      rw [tail, ← ih, lookup, if_neg same]

theorem lookup_isSome_iff (key : κ) (entries : Entries κ β) :
    (lookup key entries).isSome = true ↔ key ∈ keys entries := by
  rw [Option.isSome_iff_ne_none, ne_eq, lookup_eq_none_iff, Decidable.not_not]

theorem lookup_eq_some_iff (key : κ) (value : β) {entries : Entries κ β}
    (distinct : Distinct entries) :
    lookup key entries = some value ↔ (key, value) ∈ entries := by
  induction entries with
  | nil => simp [lookup]
  | cons head rest ih =>
    obtain ⟨name, own⟩ := head
    obtain ⟨absent, distinctRest⟩ := List.nodup_cons.mp distinct
    rw [List.mem_cons, Prod.mk.injEq, lookup]
    by_cases same : name = key
    · subst same
      have once : (name, value) ∉ rest := by
        intro later
        exact absent (List.mem_map.mpr ⟨(name, value), later, rfl⟩)
      simp [once, eq_comm]
    · simp [same, Ne.symm same, ih distinctRest]

theorem lookup_upsert_same (key : κ) (value : β) (entries : Entries κ β) :
    lookup key (upsert key value entries) = some value := by
  induction entries with
  | nil => simp [upsert, lookup]
  | cons head rest ih =>
    obtain ⟨name, own⟩ := head
    by_cases same : name = key
    · simp [upsert, lookup, same]
    · simp [upsert, lookup, same, ih]

theorem lookup_upsert_other {key other : κ} (value : β) (entries : Entries κ β)
    (apart : other ≠ key) : lookup other (upsert key value entries) = lookup other entries := by
  induction entries with
  | nil => simp [upsert, lookup, Ne.symm apart]
  | cons head rest ih =>
    obtain ⟨name, own⟩ := head
    by_cases same : name = key
    · simp [upsert, lookup, same, Ne.symm apart]
    · simp [upsert, lookup, same, ih]

theorem lookup_erase_same (key : κ) (entries : Entries κ β) (distinct : Distinct entries) :
    lookup key (erase key entries) = none := by
  induction entries with
  | nil => rfl
  | cons head rest ih =>
    obtain ⟨name, own⟩ := head
    obtain ⟨absent, later⟩ := List.nodup_cons.mp distinct
    by_cases same : name = key
    · subst same
      rw [erase, if_pos rfl, lookup_eq_none_iff]
      exact absent
    · rw [erase, if_neg same, lookup, if_neg same, ih later]

theorem lookup_erase_other {key other : κ} (entries : Entries κ β) (apart : other ≠ key) :
    lookup other (erase key entries) = lookup other entries := by
  induction entries with
  | nil => rfl
  | cons head rest ih =>
    obtain ⟨name, own⟩ := head
    by_cases same : name = key
    · simp [erase, lookup, same, Ne.symm apart]
    · simp [erase, lookup, same, ih]

theorem erase_comm (first second : κ) (entries : Entries κ β) :
    erase first (erase second entries) = erase second (erase first entries) := by
  induction entries with
  | nil => rfl
  | cons head rest ih =>
    obtain ⟨name, value⟩ := head
    by_cases isFirst : name = first
    · subst isFirst
      by_cases isSecond : name = second
      · subst isSecond
        rfl
      · simp [erase, isSecond]
    · by_cases isSecond : name = second
      · subst isSecond
        simp [erase, isFirst]
      · simp [erase, isFirst, isSecond, ih]

theorem lookup_map (key : κ) (image : β → γ) (entries : Entries κ β) :
    lookup key (entries.map fun pair => (pair.1, image pair.2)) =
      (lookup key entries).map image := by
  induction entries with
  | nil => rfl
  | cons head rest ih =>
    obtain ⟨name, value⟩ := head
    by_cases same : name = key
    · simp [lookup, same]
    · simp [lookup, same, ih]

end Entries

theorem distinct_of_ascending {κ β : Type} [KeyOrder κ] {entries : Entries κ β}
    (ascending : Ascending entries) : Entries.Distinct entries := by
  refine List.pairwise_map.mpr (ascending.imp ?_)
  intro left right before same
  rw [same, KeyOrder.irrefl] at before
  cases before

namespace SortedMap

theorem perm_place_new {κ β : Type} [KeyOrder κ] (key : κ) (value : β) (entries : Entries κ β)
    (absent : key ∉ Entries.keys entries) :
    (place key value entries).Perm ((key, value) :: entries) := by
  induction entries with
  | nil => exact List.Perm.refl _
  | cons head rest ih =>
    obtain ⟨name, old⟩ := head
    rw [Entries.keys, List.map_cons, List.mem_cons, not_or] at absent
    rw [place]
    split
    · exact List.Perm.refl _
    · split
      · exact ((ih absent.2).cons _).trans (List.Perm.swap _ _ _)
      · rename_i forward backward
        have same : key = name :=
          KeyOrder.connected key name (by simpa using forward) (by simpa using backward)
        exact absurd same absent.1

variable {κ β γ : Type} [KeyOrder κ] [DecidableEq κ]

theorem lookup_place_same (key : κ) (value : β) (entries : Entries κ β) :
    Entries.lookup key (place key value entries) = some value := by
  induction entries with
  | nil => simp [place, Entries.lookup]
  | cons head rest ih =>
    obtain ⟨name, old⟩ := head
    simp only [place]
    split
    · simp [Entries.lookup]
    · split
      · rename_i later
        have apart : name ≠ key := by
          intro same
          rw [same, KeyOrder.irrefl] at later
          exact Bool.noConfusion later
        rw [Entries.lookup, if_neg apart, ih]
      · simp [Entries.lookup]

theorem lookup_place_other (key other : κ) (value : β) (entries : Entries κ β)
    (apart : other ≠ key) :
    Entries.lookup other (place key value entries) = Entries.lookup other entries := by
  induction entries with
  | nil => simp [place, Entries.lookup, Ne.symm apart]
  | cons head rest ih =>
    obtain ⟨name, old⟩ := head
    simp only [place]
    split
    · rw [Entries.lookup, if_neg (Ne.symm apart)]
    · split
      · rw [Entries.lookup, ih, Entries.lookup]
      · rename_i forward backward
        have same : key = name :=
          KeyOrder.connected key name (by simpa using forward) (by simpa using backward)
        rw [Entries.lookup, if_neg (Ne.symm apart), Entries.lookup, if_neg (same ▸ Ne.symm apart)]

theorem find?_insert_same (map : SortedMap κ β) (key : κ) (value : β) :
    (map.insert key value).find? key = some value :=
  lookup_place_same key value map.entries

theorem find?_insert_other (map : SortedMap κ β) (key other : κ) (value : β)
    (apart : other ≠ key) : (map.insert key value).find? other = map.find? other :=
  lookup_place_other key other value map.entries apart

theorem find?_erase_same (map : SortedMap κ β) (key : κ) : (map.erase key).find? key = none :=
  Entries.lookup_erase_same key map.entries (distinct_of_ascending map.ascending)

theorem find?_erase_other (map : SortedMap κ β) {key other : κ} (apart : other ≠ key) :
    (map.erase key).find? other = map.find? other :=
  Entries.lookup_erase_other map.entries apart

theorem find?_empty (key : κ) : (empty : SortedMap κ β).find? key = none := rfl

theorem find?_eq_some_iff (map : SortedMap κ β) (key : κ) (value : β) :
    map.find? key = some value ↔ (key, value) ∈ map.entries :=
  Entries.lookup_eq_some_iff key value (distinct_of_ascending map.ascending)

theorem find?_map (map : SortedMap κ β) (image : β → γ) (key : κ) :
    (map.map image).find? key = (map.find? key).map image :=
  Entries.lookup_map key image map.entries

theorem has_iff_exists (map : SortedMap κ β) (key : κ) :
    map.has key = true ↔ ∃ value, map.find? key = some value :=
  Option.isSome_iff_exists

theorem has_iff_mem_keys (map : SortedMap κ β) (key : κ) :
    map.has key = true ↔ key ∈ map.keys :=
  Entries.lookup_isSome_iff key map.entries

theorem mem_keys_of_find? {map : SortedMap κ β} {key : κ} {value : β}
    (found : map.find? key = some value) : key ∈ map.keys :=
  (map.has_iff_mem_keys key).mp ((map.has_iff_exists key).mpr ⟨value, found⟩)

theorem has_insert_iff (map : SortedMap κ β) (key other : κ) (value : β) :
    (map.insert key value).has other = true ↔ other = key ∨ map.has other = true := by
  by_cases same : other = key
  · subst same
    simp [has, find?_insert_same]
  · simp [has, find?_insert_other map key other value same, same]

theorem has_insert_other (map : SortedMap κ β) {key other : κ} (apart : other ≠ key) (value : β) :
    (map.insert key value).has other = map.has other := by
  rw [has, find?_insert_other _ _ _ _ apart, has]

theorem mem_keys_insert (map : SortedMap κ β) (key other : κ) (value : β) :
    other ∈ (map.insert key value).keys ↔ other = key ∨ other ∈ map.keys := by
  rw [← has_iff_mem_keys, ← has_iff_mem_keys, has_insert_iff]

/-- A new key adds one entry and leaves the others. -/
theorem perm_insert_new (map : SortedMap κ β) (key : κ) (value : β) (absent : map.has key = false) :
    (map.insert key value).entries.Perm (map.entries ++ [(key, value)]) := by
  refine (perm_place_new key value map.entries ?_).trans (List.perm_append_singleton _ _).symm
  intro member
  have present := (map.has_iff_mem_keys key).mpr member
  rw [absent] at present
  cases present

/-! ## Extensionality -/

theorem lookup_of_before {key : κ} {entries : Entries κ β}
    (before : ∀ pair ∈ entries, KeyOrder.before key pair.1 = true) :
    Entries.lookup key entries = none := by
  rw [Entries.lookup_eq_none_iff]
  intro member
  obtain ⟨pair, isEntry, same⟩ := List.mem_map.mp member
  have strict := before pair isEntry
  rw [same, KeyOrder.irrefl] at strict
  cases strict

/-- What is found does not stand before the first key. -/
theorem not_before_first {key name : κ} {own value : β} {entries : Entries κ β}
    (ascending : Ascending ((name, own) :: entries))
    (found : Entries.lookup key ((name, own) :: entries) = some value) :
    KeyOrder.before key name = false := by
  rw [Bool.eq_false_iff]
  intro strict
  have missing : Entries.lookup key ((name, own) :: entries) = none := by
    refine lookup_of_before (List.forall_mem_cons.mpr ⟨strict, ?_⟩)
    intro pair member
    exact KeyOrder.trans _ _ _ strict ((List.pairwise_cons.mp ascending).1 pair member)
  rw [missing] at found
  cases found

theorem entries_ext {left right : Entries κ β} (ascendingLeft : Ascending left)
    (ascendingRight : Ascending right)
    (same : ∀ key, Entries.lookup key left = Entries.lookup key right) : left = right := by
  have first (key : κ) (value : β) (rest : Entries κ β) :
      Entries.lookup key ((key, value) :: rest) = some value := by
    simp [Entries.lookup]
  induction left generalizing right with
  | nil =>
    cases right with
    | nil => rfl
    | cons head rest => cases (same head.1).trans (first head.1 head.2 rest)
  | cons head rest ih =>
    obtain ⟨key, value⟩ := head
    cases right with
    | nil => cases (first key value rest).symm.trans (same key)
    | cons other others =>
      obtain ⟨name, own⟩ := other
      obtain rfl := KeyOrder.connected key name
        (not_before_first ascendingRight ((same key).symm.trans (first key value rest)))
        (not_before_first ascendingLeft ((same name).trans (first name own others)))
      obtain ⟨before, ascendingRest⟩ := List.pairwise_cons.mp ascendingLeft
      obtain ⟨beforeOthers, ascendingOthers⟩ := List.pairwise_cons.mp ascendingRight
      have values := (first key value rest).symm.trans ((same key).trans (first key own others))
      rw [Option.some.inj values]
      congr 1
      refine ih ascendingRest ascendingOthers ?_
      intro name
      by_cases isKey : key = name
      · subst isKey
        rw [lookup_of_before before, lookup_of_before beforeOthers]
      · have later := same name
        rwa [Entries.lookup, if_neg isKey, Entries.lookup, if_neg isKey] at later

/-- A map is determined by what is found in it. -/
theorem ext_find? {left right : SortedMap κ β} (same : ∀ key, left.find? key = right.find? key) :
    left = right :=
  SortedMap.ext (entries_ext left.ascending right.ascending same)

theorem map_insert (map : SortedMap κ β) (image : β → γ) (key : κ) (value : β) :
    (map.insert key value).map image = (map.map image).insert key (image value) := by
  apply ext_find?
  intro other
  rw [find?_map]
  by_cases same : other = key
  · subst same
    rw [find?_insert_same, find?_insert_same]
    rfl
  · rw [find?_insert_other _ _ _ _ same, find?_insert_other _ _ _ _ same, find?_map]

theorem insert_comm (map : SortedMap κ β) {first second : κ} (apart : first ≠ second)
    (value own : β) :
    (map.insert first value).insert second own = (map.insert second own).insert first value := by
  apply ext_find?
  intro key
  by_cases isFirst : key = first
  · subst isFirst
    rw [find?_insert_other _ _ _ _ apart, find?_insert_same, find?_insert_same]
  · rw [find?_insert_other _ _ _ _ isFirst]
    by_cases isSecond : key = second
    · subst isSecond
      rw [find?_insert_same, find?_insert_same]
    · rw [find?_insert_other _ _ _ _ isSecond, find?_insert_other _ _ _ _ isSecond,
        find?_insert_other _ _ _ _ isFirst]

theorem find?_ofList_iff (pairs : Entries κ β) (key : κ) (value : β) :
    (ofList pairs).find? key = some value ↔ Entries.IsLast pairs key value := by
  induction pairs using List.reverseRecOn with
  | nil =>
    constructor
    · intro impossible
      cases impossible
    · rintro ⟨before, behind, impossible, -⟩
      simp at impossible
  | append_singleton pairs last ih =>
    obtain ⟨name, own⟩ := last
    rw [ofList_concat, Entries.isLast_concat]
    by_cases same : key = name
    · subst same
      simp [find?_insert_same, eq_comm]
    · rw [find?_insert_other _ _ _ _ same, ih]
      simp [same]

theorem has_ofList_iff (pairs : Entries κ β) (key : κ) :
    (ofList pairs).has key = true ↔ key ∈ Entries.keys pairs := by
  induction pairs using List.reverseRecOn with
  | nil => simp [ofList, has, find?_empty, Entries.keys]
  | append_singleton pairs last ih =>
    obtain ⟨name, own⟩ := last
    rw [ofList_concat, has_insert_iff, ih]
    simp [Entries.keys, or_comm]

end SortedMap

end TreeTemplate
