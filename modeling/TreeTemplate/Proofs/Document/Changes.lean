import TreeTemplate.Proofs.Document.Materializing

/-!
# Rows of changes

Entries can be read off the row of changes that led to them, a change to a key giving a value or
removing the key. The keys that were set and not removed since stand there, each with the value set
last, and a key stands where it was put when it was last absent. One change carries such a reading on.
-/
set_option autoImplicit false

namespace TreeTemplate

namespace Entries
variable {κ β : Type}

/-- The place of the change that the entry of a key dates from: the key is set there, is not set
before or was removed again, and is not removed behind it. -/
def EntersAt (changes : Entries κ (Option β)) (key : κ) (place : Nat) : Prop :=
  ∃ before value behind, changes = before ++ (key, some value) :: behind ∧ before.length = place ∧
    (∀ earlier, ¬IsLast before key (some earlier)) ∧ (key, none) ∉ behind

def EntersBefore (changes : Entries κ (Option β)) (left right : κ) : Prop :=
  ∃ first second, EntersAt changes left first ∧ EntersAt changes right second ∧ first < second

/-- The entries that changes leave, starting from none: the keys that were set and not removed since,
each with the value set last, in the order of the changes that their entries date from. -/
structure Remains (changes : Entries κ (Option β)) (entries : Entries κ β) : Prop where
  distinct : Distinct entries
  values : ∀ pair, pair ∈ entries ↔ IsLast changes pair.1 (some pair.2)
  order : (keys entries).Pairwise (EntersBefore changes)

theorem IsLast.append_left {pairs : Entries κ β} {key : κ} {value : β}
    (isLast : IsLast pairs key value) (earlier : Entries κ β) :
    IsLast (earlier ++ pairs) key value := by
  obtain ⟨before, behind, rfl, absent⟩ := isLast
  exact ⟨earlier ++ before, behind, by simp, absent⟩

section Places
variable {changes : Entries κ (Option β)} {key : κ} {place : Nat}

theorem EntersAt.lt_length (enters : EntersAt changes key place) : place < changes.length := by
  obtain ⟨before, value, behind, rfl, rfl, -⟩ := enters
  simp

/-- A later change leaves the place as it is, unless it removes the key. -/
theorem EntersAt.concat (enters : EntersAt changes key place) {name : κ} {own : Option β}
    (kept : (key, none) ≠ (name, own)) : EntersAt (changes ++ [(name, own)]) key place := by
  obtain ⟨before, value, behind, rfl, rfl, fresh, stays⟩ := enters
  refine ⟨before, value, behind ++ [(name, own)], by simp, rfl, fresh, ?_⟩
  rw [List.mem_append, List.mem_singleton, not_or]
  exact ⟨stays, kept⟩

theorem entersAt_new (fresh : ∀ earlier, ¬IsLast changes key (some earlier)) (value : β) :
    EntersAt (changes ++ [(key, some value)]) key changes.length :=
  ⟨changes, value, [], rfl, rfl, fresh, List.not_mem_nil⟩

theorem EntersBefore.concat {left right name : κ} {own : Option β}
    (before : EntersBefore changes left right) (keptLeft : (left, none) ≠ (name, own))
    (keptRight : (right, none) ≠ (name, own)) :
    EntersBefore (changes ++ [(name, own)]) left right := by
  obtain ⟨first, second, entersLeft, entersRight, order⟩ := before
  exact ⟨first, second, entersLeft.concat keptLeft, entersRight.concat keptRight, order⟩

/-- What is set last has entered somewhere. -/
theorem exists_entersAt (changes : Entries κ (Option β)) (key : κ) (value : β)
    (isLast : IsLast changes key (some value)) : ∃ place, EntersAt changes key place := by
  induction changes using List.reverseRecOn generalizing value with
  | nil =>
    obtain ⟨before, behind, impossible, -⟩ := isLast
    simp at impossible
  | append_singleton changes last ih =>
    obtain ⟨name, own⟩ := last
    rcases (isLast_concat ..).mp isLast with ⟨rfl, rfl⟩ | ⟨apart, earlier⟩
    · by_cases set : ∃ earlier, IsLast changes key (some earlier)
      · obtain ⟨earlier, isEarlier⟩ := set
        obtain ⟨place, enters⟩ := ih earlier isEarlier
        exact ⟨place, enters.concat (by simp)⟩
      · exact ⟨_, entersAt_new (not_exists.mp set) value⟩
    · obtain ⟨place, enters⟩ := ih value earlier
      exact ⟨place, enters.concat (by simp [apart])⟩

variable [DecidableEq κ]

theorem exists_isLast (changes : Entries κ β) (key : κ) (member : key ∈ keys changes) :
    ∃ own, IsLast changes key own := by
  induction changes using List.reverseRecOn with
  | nil => cases member
  | append_singleton changes last ih =>
    obtain ⟨name, own⟩ := last
    by_cases same : key = name
    · exact ⟨own, (isLast_concat ..).mpr (Or.inl ⟨same, rfl⟩)⟩
    · have earlier : key ∈ keys changes := by
        rw [keys, List.map_append, List.mem_append] at member
        exact member.resolve_right fun isLast => same (List.mem_singleton.mp isLast)
      obtain ⟨value, isLast⟩ := ih earlier
      exact ⟨value, (isLast_concat ..).mpr (Or.inr ⟨same, isLast⟩)⟩

/-- At the later of two places the key would be set already. -/
theorem EntersAt.not_lt {other : Nat} (first : EntersAt changes key place)
    (second : EntersAt changes key other) : ¬place < other := by
  intro order
  obtain ⟨before, value, behind, rfl, rfl, -, stays⟩ := first
  obtain ⟨front, own, rest, shape, rfl, fresh, -⟩ := second
  rcases List.append_eq_append_iff.mp shape with ⟨middle, rfl, inside⟩ | ⟨middle, rfl, -⟩
  · cases middle with
    | nil => simp at order
    | cons head between =>
      obtain ⟨rfl, rfl⟩ := List.cons.inj inside
      obtain ⟨last, isLast⟩ := exists_isLast ((key, some value) :: between) key List.mem_cons_self
      cases last with
      | some earlier => exact fresh earlier (isLast.append_left before)
      | none =>
        have removed := (List.mem_cons.mp isLast.mem).resolve_left (by simp)
        exact stays (List.mem_append_left _ removed)
  · rw [List.length_append] at order
    omega

theorem EntersAt.functional {other : Nat} (first : EntersAt changes key place)
    (second : EntersAt changes key other) : place = other :=
  Nat.le_antisymm (Nat.not_lt.mp (second.not_lt first)) (Nat.not_lt.mp (first.not_lt second))

end Places

section Remains
variable {changes : Entries κ (Option β)} {entries : Entries κ β}

theorem remains_nil : Remains ([] : Entries κ (Option β)) [] := by
  refine ⟨distinct_nil, ?_, .nil⟩
  intro pair
  refine iff_of_false List.not_mem_nil ?_
  rintro ⟨before, behind, impossible, -⟩
  simp at impossible

variable [DecidableEq κ]

def change (entries : Entries κ β) (key : κ) : Option β → Entries κ β
  | some value => upsert key value entries
  | none => erase key entries

theorem distinct_change (distinct : Distinct entries) (key : κ) (own : Option β) :
    Distinct (change entries key own) := by
  cases own with
  | some value => exact distinct_upsert key value entries distinct
  | none => exact distinct_erase key entries distinct

theorem lookup_change_same (distinct : Distinct entries) (key : κ) (own : Option β) :
    lookup key (change entries key own) = own := by
  cases own with
  | some value => exact lookup_upsert_same key value entries
  | none => exact lookup_erase_same key entries distinct

theorem lookup_change_other {key other : κ} (apart : other ≠ key) (own : Option β) :
    lookup other (change entries key own) = lookup other entries := by
  cases own with
  | some value => exact lookup_upsert_other value entries apart
  | none => exact lookup_erase_other entries apart

theorem Remains.functional {others : Entries κ β} (first : Remains changes entries)
    (second : Remains changes others) : entries = others := by
  let sooner (left right : κ × β) : Prop := EntersBefore changes left.1 right.1
  have strict {left right : κ} (before : EntersBefore changes left right) :
      ¬EntersBefore changes right left := by
    rintro ⟨place, other, entersRight, entersLeft, behind⟩
    obtain ⟨own, last, isLeft, isRight, order⟩ := before
    rw [isLeft.functional entersLeft, isRight.functional entersRight] at order
    exact Nat.lt_asymm order behind
  have irreflexive : Std.Irrefl sooner := ⟨fun pair before => strict before before⟩
  have antisymmetric : Std.Antisymm sooner :=
    ⟨fun left right before behind => absurd behind (strict before)⟩
  refine List.Pairwise.eq_of_mem_iff (List.pairwise_map.mp first.order)
    (List.pairwise_map.mp second.order) ?_
  intro pair
  rw [first.values, second.values]

theorem Remains.iff_eq (remains : Remains changes entries) (others : Entries κ β) :
    Remains changes others ↔ others = entries :=
  ⟨fun other => other.functional remains, fun same => same ▸ remains⟩

/-- A change to one key carries on what the changes before it leave. -/
theorem Remains.change (remains : Remains changes entries) (name : κ) (own : Option β) :
    Remains (changes ++ [(name, own)]) (Entries.change entries name own) := by
  have distinct := distinct_change remains.distinct name own
  refine ⟨distinct, ?_, ?_⟩
  · rintro ⟨key, value⟩
    rw [isLast_concat, ← lookup_eq_some_iff key value distinct]
    by_cases same : key = name
    · subst same
      simp [lookup_change_same remains.distinct, eq_comm]
    · have before := remains.values (key, value)
      rw [← lookup_eq_some_iff key value remains.distinct] at before
      simp [lookup_change_other same, before, same]
  · cases own with
    | some value =>
      refine pairwise_keys_upsert name value ?_ ?_
      · exact remains.order.imp fun before => before.concat (by simp) (by simp)
      · intro absent key member
        obtain ⟨⟨own, last⟩, isEntry, rfl⟩ := List.mem_map.mp member
        obtain ⟨place, enters⟩ := exists_entersAt changes own last ((remains.values _).mp isEntry)
        have fresh : ∀ earlier, ¬IsLast changes name (some earlier) := by
          intro earlier isLast
          exact absent (List.mem_map.mpr ⟨_, (remains.values (name, earlier)).mpr isLast, rfl⟩)
        exact ⟨place, _, enters.concat (by simp), entersAt_new fresh value, enters.lt_length⟩
    | none =>
      have kept : (keys (erase name entries)).Sublist (keys entries) :=
        (erase_sublist name entries).map Prod.fst
      have absent : name ∉ keys (erase name entries) :=
        (lookup_eq_none_iff name _).mp (lookup_erase_same name entries remains.distinct)
      refine (remains.order.sublist kept).imp_of_mem ?_
      intro left right isLeft isRight before
      have apart {key : κ} (member : key ∈ keys (erase name entries)) :
          (key, (none : Option β)) ≠ (name, none) := by
        intro same
        obtain ⟨rfl, -⟩ := Prod.mk.inj same
        exact absent member
      exact before.concat (apart isLeft) (apart isRight)

def after (entries : Entries κ β) : Option (κ × Option β) → Entries κ β
  | none => entries
  | some (key, own) => change entries key own

theorem Remains.after (remains : Remains changes entries) (next : Option (κ × Option β)) :
    Remains (changes ++ next.toList) (Entries.after entries next) := by
  cases next with
  | none => simpa [Entries.after] using remains
  | some pair => exact remains.change pair.1 pair.2

end Remains

/-- A key that is removed and set again moves to the end; one that is set again stays. -/
example : change (change (change (change [('a', 1), ('b', 2)] 'a' none) 'c' (some 3)) 'a' (some 4))
    'b' (some 5) = [('b', 5), ('c', 3), ('a', 4)] := by
  decide

end Entries

end TreeTemplate
