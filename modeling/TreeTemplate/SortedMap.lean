import TreeTemplate.Entries
import TreeTemplate.Text.Basic

/-!
# Sorted maps

Finite maps whose entries are listed in the order of their keys. The order is part of the type, so
two maps with the same entries are equal, however they were filled.
-/
set_option autoImplicit false

namespace TreeTemplate

/-- A decidable strict total order of keys. -/
class KeyOrder (κ : Type) where
  /-- Whether the first key stands strictly before the second. -/
  before : κ → κ → Bool
  irrefl : ∀ key, before key key = false
  trans : ∀ left middle right,
    before left middle = true → before middle right = true → before left right = true
  connected : ∀ left right, before left right = false → before right left = false → left = right

instance textKeyOrder : KeyOrder Text where
  before := Text.before
  irrefl := Text.before_irrefl
  trans := Text.before_trans
  connected := Text.before_connected

instance natKeyOrder : KeyOrder Nat where
  before left right := decide (left < right)
  irrefl key := by simp
  trans left middle right := by
    simp only [decide_eq_true_eq]
    omega
  connected left right := by
    simp only [decide_eq_false_iff_not]
    omega

/-- Entries with strictly ascending keys. -/
def Ascending {κ β : Type} [KeyOrder κ] (entries : Entries κ β) : Prop :=
  entries.Pairwise fun left right => KeyOrder.before left.1 right.1 = true

/-- A finite map with its entries in the order of the keys. -/
structure SortedMap (κ β : Type) [KeyOrder κ] where
  entries : Entries κ β
  ascending : Ascending entries

namespace SortedMap

variable {κ β γ : Type} [KeyOrder κ]

@[ext] theorem ext {left right : SortedMap κ β} (same : left.entries = right.entries) :
    left = right := by
  cases left
  cases right
  subst same
  rfl

def empty : SortedMap κ β :=
  ⟨[], List.Pairwise.nil⟩

instance : Inhabited (SortedMap κ β) :=
  ⟨empty⟩

/-- The entries with the pair at the place of its key, an entry with the same key replaced. -/
def place (key : κ) (value : β) : Entries κ β → Entries κ β
  | [] => [(key, value)]
  | (name, old) :: rest =>
    if KeyOrder.before key name then (key, value) :: (name, old) :: rest
    else if KeyOrder.before name key then (name, old) :: place key value rest
    else (key, value) :: rest

theorem mem_place (key : κ) (value : β) (entries : Entries κ β) (pair : κ × β)
    (member : pair ∈ place key value entries) : pair = (key, value) ∨ pair ∈ entries := by
  induction entries with
  | nil => simpa [place] using member
  | cons head rest ih =>
    obtain ⟨name, old⟩ := head
    simp only [place] at member
    split at member
    · simpa using member
    · split at member
      · rcases List.mem_cons.mp member with same | later
        · exact Or.inr (same ▸ List.mem_cons_self)
        · rcases ih later with new | kept
          · exact Or.inl new
          · exact Or.inr (List.mem_cons_of_mem _ kept)
      · rcases List.mem_cons.mp member with same | later
        · exact Or.inl same
        · exact Or.inr (List.mem_cons_of_mem _ later)

theorem ascending_place (key : κ) (value : β) (entries : Entries κ β)
    (sorted : Ascending entries) : Ascending (place key value entries) := by
  induction entries with
  | nil => simp [place, Ascending]
  | cons head rest ih =>
    obtain ⟨name, old⟩ := head
    have parts := List.pairwise_cons.mp sorted
    simp only [place]
    split
    · rename_i first
      refine List.pairwise_cons.mpr ⟨?_, sorted⟩
      intro pair member
      rcases List.mem_cons.mp member with same | later
      · subst same
        exact first
      · exact KeyOrder.trans _ _ _ first (parts.1 pair later)
    · split
      · rename_i second
        refine List.pairwise_cons.mpr ⟨?_, ih parts.2⟩
        intro pair member
        rcases mem_place key value rest pair member with new | kept
        · subst new
          exact second
        · exact parts.1 pair kept
      · rename_i forward backward
        have same : key = name :=
          KeyOrder.connected key name (by simpa using forward) (by simpa using backward)
        subst same
        exact List.pairwise_cons.mpr parts

def insert (map : SortedMap κ β) (key : κ) (value : β) : SortedMap κ β :=
  ⟨place key value map.entries, ascending_place key value map.entries map.ascending⟩

/-- The map that holds the pairs, the last of two equal keys winning. -/
def ofList (pairs : Entries κ β) : SortedMap κ β :=
  pairs.foldl (fun map pair => map.insert pair.1 pair.2) empty

theorem ofList_concat (pairs : Entries κ β) (key : κ) (value : β) :
    ofList (pairs ++ [(key, value)]) = (ofList pairs).insert key value := by
  rw [ofList, List.foldl_append]
  rfl

def map (image : β → γ) (source : SortedMap κ β) : SortedMap κ γ :=
  ⟨source.entries.map fun pair => (pair.1, image pair.2), by
    have sorted := source.ascending
    simpa [Ascending, List.pairwise_map] using sorted⟩

def keys (map : SortedMap κ β) : List κ :=
  Entries.keys map.entries

def size (map : SortedMap κ β) : Nat :=
  map.entries.length

variable [DecidableEq κ]

def find? (map : SortedMap κ β) (key : κ) : Option β :=
  Entries.lookup key map.entries

def has (map : SortedMap κ β) (key : κ) : Bool :=
  (map.find? key).isSome

def erase (map : SortedMap κ β) (key : κ) : SortedMap κ β :=
  ⟨Entries.erase key map.entries,
    List.Pairwise.sublist (Entries.erase_sublist key map.entries) map.ascending⟩

end SortedMap

end TreeTemplate
