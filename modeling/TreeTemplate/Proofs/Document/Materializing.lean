import Mathlib.Data.List.Sort
import TreeTemplate.Proofs.Document.Building
import TreeTemplate.Proofs.Document.Routes
import TreeTemplate.Proofs.SortedMap

/-!
# Materialized trees

Building a tree adds its nodes to a document and does nothing else. The new nodes are numbered in
pre-order behind the old ones, are linked among themselves only, and read back as the tree, in which
each name that is set several times stands once: where it was first set, with the value that it was
last set to.
-/
set_option autoImplicit false

namespace TreeTemplate

namespace Entries
variable {κ β : Type} [DecidableEq κ]

def Sooner (names : List κ) (left right : κ) : Prop :=
  names.idxOf left < names.idxOf right

/-- The condensed entries have the keys of the entries in the order in which they first stand there,
each with the value that it is given last. -/
structure Condenses (entries condensed : Entries κ β) : Prop where
  order : condensed.Pairwise fun left right => Sooner (keys entries) left.1 right.1
  values : ∀ pair, pair ∈ condensed ↔ IsLast entries pair.1 pair.2

theorem Condenses.functional {entries first second : Entries κ β} (left : Condenses entries first)
    (right : Condenses entries second) : first = second := by
  have irreflexive : Std.Irrefl fun pair other : κ × β => Sooner (keys entries) pair.1 other.1 :=
    ⟨fun pair => Nat.lt_irrefl _⟩
  have antisymmetric : Std.Antisymm fun pair other : κ × β =>
      Sooner (keys entries) pair.1 other.1 :=
    ⟨fun pair other before behind => absurd before (Nat.lt_asymm behind)⟩
  refine List.Pairwise.eq_of_mem_iff left.order right.order ?_
  intro pair
  rw [left.values, right.values]

theorem keys_upsert_of_mem (key : κ) (value : β) (entries : Entries κ β)
    (member : key ∈ keys entries) : keys (upsert key value entries) = keys entries := by
  induction entries with
  | nil => cases member
  | cons head rest ih =>
    obtain ⟨name, old⟩ := head
    by_cases same : name = key
    · rw [upsert, if_pos same]
      rfl
    · rw [upsert, if_neg same]
      have later : key ∈ keys rest := by
        rcases List.mem_cons.mp member with isFirst | later
        · exact absurd isFirst.symm same
        · exact later
      exact congrArg (name :: ·) (ih later)

theorem mem_keys_upsertAll (key : κ) (entries additions : Entries κ β) :
    key ∈ keys (upsertAll entries additions) ↔ key ∈ keys entries ∨ key ∈ keys additions := by
  induction additions generalizing entries with
  | nil => simp [upsertAll, keys]
  | cons head rest ih =>
    have first := mem_keys_upsert head.1 key head.2 entries
    change key ∈ keys (upsertAll (upsert head.1 head.2 entries) rest) ↔ _
    have whole : key ∈ keys (head :: rest) ↔ key = head.1 ∨ key ∈ keys rest := by simp [keys]
    rw [ih, first, whole]
    exact or_assoc.trans or_left_comm

/-- A key that is set comes behind the others, unless it is one of them. -/
theorem pairwise_keys_upsert {sooner : κ → κ → Prop} (name : κ) (own : β)
    {entries : Entries κ β} (sorted : (keys entries).Pairwise sooner)
    (last : name ∉ keys entries → ∀ key ∈ keys entries, sooner key name) :
    (keys (upsert name own entries)).Pairwise sooner := by
  by_cases repeated : name ∈ keys entries
  · rw [keys_upsert_of_mem name own _ repeated]
    exact sorted
  · have added : keys (upsert name own entries) = keys entries ++ [name] := by
      rw [upsert_new name own _ repeated]
      simp [keys]
    rw [added, List.pairwise_append]
    refine ⟨sorted, List.pairwise_singleton _ _, ?_⟩
    intro key member other isLast
    obtain rfl := List.mem_singleton.mp isLast
    exact last repeated key member

/-- Setting pairs one after the other condenses them. -/
theorem condenses_upsertAll (entries : Entries κ β) :
    Condenses entries (upsertAll [] entries) := by
  -- The induction is on the pairs from the end: the last one replaces a value or comes last.
  induction entries using List.reverseRecOn with
  | nil =>
    refine ⟨.nil, ?_⟩
    intro pair
    refine iff_of_false List.not_mem_nil ?_
    rintro ⟨before, behind, shape, -⟩
    simp at shape
  | append_singleton pairs pair ih =>
    obtain ⟨name, own⟩ := pair
    have extended : upsertAll [] (pairs ++ [(name, own)]) = upsert name own (upsertAll [] pairs) := by
      rw [upsertAll, List.foldl_append]
      rfl
    have members (key : κ) : key ∈ keys (upsertAll [] pairs) ↔ key ∈ keys pairs := by
      rw [mem_keys_upsertAll]
      simp [keys]
    have names : keys (pairs ++ [(name, own)]) = keys pairs ++ [name] := by simp [keys]
    have distinct := distinct_upsertAll [] pairs distinct_nil
    rw [extended]
    constructor
    · have before : (keys (upsertAll [] pairs)).Pairwise (Sooner (keys pairs)) :=
        List.pairwise_map.mpr ih.order
      have sorted : (keys (upsert name own (upsertAll [] pairs))).Pairwise
          (Sooner (keys pairs ++ [name])) := by
        refine pairwise_keys_upsert name own ?_ ?_
        · -- Among the keys that are there, the first places stay as they are.
          refine before.imp_of_mem ?_
          intro left right isLeft isRight ordered
          rwa [Sooner, List.idxOf_append_of_mem ((members left).mp isLeft),
            List.idxOf_append_of_mem ((members right).mp isRight)]
        · intro fresh key member
          have inside : key ∈ keys pairs := (members key).mp member
          rw [Sooner, List.idxOf_append_of_mem inside,
            List.idxOf_append_of_notMem (mt (members name).mpr fresh)]
          exact Nat.lt_of_lt_of_le (List.idxOf_lt_length_of_mem inside) (Nat.le_add_right _ _)
      rw [names]
      exact List.pairwise_map.mp sorted
    · rintro ⟨key, value⟩
      rw [isLast_concat, ← lookup_eq_some_iff key value (distinct_upsert name own _ distinct)]
      by_cases same : key = name
      · subst same
        rw [lookup_upsert_same]
        simp [eq_comm]
      · rw [lookup_upsert_other own _ same, lookup_eq_some_iff key value distinct, ih.values]
        simp [same]

/-- The first key stays first, with the value of its last pair. -/
example : upsertAll [] [('a', 1), ('b', 2), ('a', 3)] = [('a', 3), ('b', 2)] := by
  decide

end Entries

inductive Blueprint.Condenses : List Blueprint → List Blueprint → Prop where
  | done : Condenses [] []
  | text {content : Text} {forest condensed : List Blueprint} (later : Condenses forest condensed) :
      Condenses (.text content :: forest) (.text content :: condensed)
  | element {tag : Text} {attributes ownAttributes : Entries Text Text}
      {properties ownProperties : Entries Text PropertyValue}
      {children inner forest condensed : List Blueprint}
      (condensesAttributes : Entries.Condenses attributes ownAttributes)
      (condensesProperties : Entries.Condenses properties ownProperties)
      (inside : Condenses children inner) (later : Condenses forest condensed) :
      Condenses (.element tag attributes properties children :: forest)
        (.element tag ownAttributes ownProperties inner :: condensed)

theorem Blueprint.Condenses.functional {forest first second : List Blueprint}
    (left : Condenses forest first) (right : Condenses forest second) : first = second := by
  induction left generalizing second with
  | done => cases right; rfl
  | text _ ih =>
    cases right with
    | text later => rw [ih later]
  | element attributes properties _ _ ihInside ihLater =>
    cases right with
    | element condensesAttributes condensesProperties inside later =>
      rw [attributes.functional condensesAttributes, properties.functional condensesProperties,
        ihInside inside, ihLater later]

mutual

theorem Blueprint.condenses_settled (tree : Blueprint) {forest condensed : List Blueprint}
    (later : Condenses forest condensed) : Condenses (tree :: forest) (tree.settled :: condensed) := by
  cases tree with
  | text content => exact .text later
  | element tag attributes properties children =>
    exact .element (Entries.condenses_upsertAll attributes) (Entries.condenses_upsertAll properties)
      (condenses_settledAll children) later

theorem Blueprint.condenses_settledAll (forest : List Blueprint) :
    Condenses forest (settledAll forest) := by
  cases forest with
  | nil => exact .done
  | cons first rest => exact first.condenses_settled (condenses_settledAll rest)

end

mutual

def Blueprint.size : Blueprint → Nat
  | .text _ => 1
  | .element _ _ _ children => sizeAll children + 1

def Blueprint.sizeAll : List Blueprint → Nat
  | [] => 0
  | first :: rest => first.size + sizeAll rest

end

mutual

theorem Blueprint.size_settled (tree : Blueprint) : tree.settled.size = tree.size := by
  cases tree with
  | text content => rfl
  | element tag attributes properties children =>
    exact congrArg (· + 1) (sizeAll_settledAll children)

theorem Blueprint.sizeAll_settledAll (forest : List Blueprint) :
    sizeAll (settledAll forest) = sizeAll forest := by
  cases forest with
  | nil => rfl
  | cons first rest =>
    rw [settledAll, sizeAll, sizeAll, first.size_settled, sizeAll_settledAll rest]

end

namespace Spans
variable {node? : NodeId → Option Node} {first next : Nat} {ids : List NodeId}
  {forest : List Blueprint}

/-- A forest takes as many identities as it has nodes. -/
theorem next_eq (spans : Spans node? first ids forest next) :
    next = first + Blueprint.sizeAll forest := by
  induction spans with
  | done => rfl
  | text found later ih =>
    rw [ih, Blueprint.sizeAll, Blueprint.size]
    omega
  | element found inside later ihInside ihLater =>
    rw [ihLater, ihInside, Blueprint.sizeAll, Blueprint.size]
    omega

theorem head_eq {id : NodeId} (spans : Spans node? first (id :: ids) forest next) : id = first := by
  cases spans <;> rfl

theorem bounds (spans : Spans node? first ids forest next) (id : Nat) (member : id ∈ ids) :
    first ≤ id ∧ id < next := by
  induction spans with
  | done => cases member
  | text found later ih =>
    have order := later.le
    rcases List.mem_cons.mp member with rfl | behind
    · exact ⟨Nat.le_refl _, order⟩
    · have inner := ih behind
      exact ⟨by omega, inner.2⟩
  | element found inside later _ ih =>
    have orderInside := inside.le
    have orderLater := later.le
    rcases List.mem_cons.mp member with rfl | behind
    · exact ⟨Nat.le_refl _, by omega⟩
    · have inner := ih behind
      exact ⟨by omega, inner.2⟩

end Spans

/-- The links in a forest lead to later nodes of the forest. -/
theorem Spans.links {document : Document} {first next : Nat} {ids : List NodeId}
    {forest : List Blueprint} (spans : Spans document.node? first ids forest next)
    (parent child : Nat) (atLeast : first ≤ parent) (before : parent < next)
    (isChild : child ∈ document.children parent) : parent < child ∧ child < next := by
  induction spans with
  | done => omega
  | @text first next content ids forest found later ih =>
    rcases Nat.eq_or_lt_of_le atLeast with rfl | behind
    · rw [Document.children_of_text found] at isChild
      cases isChild
    · exact ih behind before
  | @element first middle next element ids children forest found inside later ihInside ihLater =>
    have order := later.le
    rcases Nat.eq_or_lt_of_le atLeast with rfl | behind
    · rw [Document.children_of_element found] at isChild
      obtain ⟨isLater, isBefore⟩ := inside.bounds child isChild
      exact ⟨isLater, by omega⟩
    · rcases Nat.lt_or_ge parent middle with isInside | isBehind
      · obtain ⟨isLater, isBefore⟩ := ihInside behind isInside
        exact ⟨isLater, by omega⟩
      · exact ihLater isBehind before

/-! ## Building -/

/-- What building a tree comes to: its root is the first new node; there are as many new nodes as
the tree has, in pre-order; the old ones stay as they are; what is read back below the root is the
tree with its entries condensed; and the new nodes are linked among themselves, with one route to
each. -/
structure Document.Materializes (before : Document) (tree : Blueprint) (id : NodeId)
    (after : Document) : Prop where
  root : id = before.size
  size : after.size = before.size + tree.size
  kept : ∀ old < before.size, after.node? old = before.node? old
  order : ∀ occurrences, after.Visits [id] occurrences ↔
    occurrences = List.range' before.size tree.size
  shown : ∃ read, after.ShowsAll [id] [read]
  condensed : ∀ read, after.ShowsAll [id] [read] ↔ Blueprint.Condenses [tree] [read]
  links : ∀ parent : Nat, before.size ≤ parent → ∀ child ∈ after.children parent,
    before.size ≤ child ∧ child < after.size
  routes : ∀ new : Nat, before.size ≤ new → new < after.size →
    ∃! route, after.Leads [id] route new

/-- Building a tree materializes it, whatever the document holds. -/
theorem Document.build_materializes (document : Document) (tree : Blueprint) :
    document.Materializes tree (document.build tree).1 (document.build tree).2 := by
  obtain ⟨spans, keeps⟩ := document.spans_build tree
  generalize document.build tree = built at spans keeps ⊢
  obtain ⟨id, after⟩ := built
  dsimp only at spans keeps ⊢
  have root : id = document.size := spans.head_eq
  have size : after.size = document.size + tree.size := by
    rw [spans.next_eq, Blueprint.sizeAll, Blueprint.sizeAll, tree.size_settled]
    rfl
  have visits := spans.visits
  rw [size, Nat.add_sub_cancel_left] at visits
  have condenses : Blueprint.Condenses [tree] [tree.settled] := tree.condenses_settled .done
  refine ⟨root, size, ?_, visits.iff_eq, ⟨tree.settled, spans.shows⟩, ?_, ?_, ?_⟩
  · intro old isOld
    exact keeps.kept old isOld (Nat.ne_of_lt isOld)
  · intro read
    constructor
    · intro shows
      rwa [shows.functional spans.shows]
    · intro other
      rw [other.functional condenses]
      exact spans.shows
  · intro parent atLeast child isChild
    have isNode : parent < after.size := of_decide_eq_true (hasNode_of_mem_children isChild)
    obtain ⟨later, inside⟩ := spans.links parent child atLeast isNode isChild
    exact ⟨Nat.le_of_lt (Nat.lt_of_le_of_lt atLeast later), inside⟩
  · intro new atLeast inside
    refine visits.preorder.existsUnique_route List.nodup_range' ?_
    rw [List.mem_range'_1]
    omega

end TreeTemplate
