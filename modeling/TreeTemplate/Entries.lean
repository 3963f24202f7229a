/-!
# Entries

Lists of key and value pairs in the order in which their keys were first set. Setting a key that
is present keeps its place; a key that is removed and set again moves to the end.
-/
set_option autoImplicit false

namespace TreeTemplate

/-- Pairs of keys and values in a significant order. -/
abbrev Entries (κ β : Type) := List (κ × β)

namespace Entries

variable {κ β : Type}

def keys (entries : Entries κ β) : List κ :=
  entries.map Prod.fst

/-- No key stands in two entries. -/
def Distinct (entries : Entries κ β) : Prop :=
  (keys entries).Nodup

theorem distinct_nil : Distinct ([] : Entries κ β) :=
  List.nodup_nil

variable [DecidableEq κ]

/-- The value of the first entry with the key. -/
def lookup (key : κ) : Entries κ β → Option β
  | [] => none
  | (name, value) :: rest => if name = key then some value else lookup key rest

/-- The entries with the first value of the key replaced, or with a new entry at the end. -/
def upsert (key : κ) (value : β) : Entries κ β → Entries κ β
  | [] => [(key, value)]
  | (name, old) :: rest =>
    if name = key then (name, value) :: rest else (name, old) :: upsert key value rest

/-- The entries without the first one that has the key. -/
def erase (key : κ) : Entries κ β → Entries κ β
  | [] => []
  | (name, value) :: rest => if name = key then rest else (name, value) :: erase key rest

theorem erase_sublist (key : κ) (entries : Entries κ β) : (erase key entries).Sublist entries := by
  induction entries with
  | nil => exact List.Sublist.slnil
  | cons head rest ih =>
    obtain ⟨name, value⟩ := head
    by_cases same : name = key
    · simp [erase, same]
    · simpa [erase, same] using ih

/-- The entries without the first ones that have the keys. -/
def eraseAll (names : List κ) (entries : Entries κ β) : Entries κ β :=
  names.foldl (fun current name => erase name current) entries

/-- All pairs set one after the other, starting from the given entries. -/
def upsertAll (entries additions : Entries κ β) : Entries κ β :=
  additions.foldl (fun current pair => upsert pair.1 pair.2 current) entries

/-! ## Distinct keys -/

theorem mem_keys_upsert (key name : κ) (value : β) (entries : Entries κ β) :
    name ∈ keys (upsert key value entries) ↔ name = key ∨ name ∈ keys entries := by
  induction entries with
  | nil => simp [upsert, keys]
  | cons head rest ih =>
    obtain ⟨first, old⟩ := head
    simp only [upsert]
    split
    · rename_i same
      subst same
      simp [keys]
    · have tail : name ∈ keys ((first, old) :: upsert key value rest) ↔
          name = first ∨ name ∈ keys (upsert key value rest) := by simp [keys]
      rw [tail, ih]
      simp only [keys, List.map_cons, List.mem_cons]
      constructor
      · rintro (isFirst | isKey | later)
        · exact Or.inr (Or.inl isFirst)
        · exact Or.inl isKey
        · exact Or.inr (Or.inr later)
      · rintro (isKey | isFirst | later)
        · exact Or.inr (Or.inl isKey)
        · exact Or.inl isFirst
        · exact Or.inr (Or.inr later)

theorem distinct_upsert (key : κ) (value : β) (entries : Entries κ β)
    (distinct : Distinct entries) : Distinct (upsert key value entries) := by
  induction entries with
  | nil => simp [upsert, Distinct, keys]
  | cons head rest ih =>
    obtain ⟨first, old⟩ := head
    have parts := List.nodup_cons.mp distinct
    simp only [upsert]
    split
    · exact distinct
    · rename_i other
      refine List.nodup_cons.mpr ⟨?_, ih parts.2⟩
      intro member
      rcases (mem_keys_upsert key first value rest).mp member with same | later
      · exact other same
      · exact parts.1 later

theorem distinct_erase (key : κ) (entries : Entries κ β) (distinct : Distinct entries) :
    Distinct (erase key entries) :=
  List.Pairwise.sublist (List.Sublist.map Prod.fst (erase_sublist key entries)) distinct

theorem distinct_eraseAll (names : List κ) (entries : Entries κ β) (distinct : Distinct entries) :
    Distinct (eraseAll names entries) := by
  induction names generalizing entries with
  | nil => exact distinct
  | cons name rest ih => exact ih (erase name entries) (distinct_erase name entries distinct)

end Entries

end TreeTemplate
