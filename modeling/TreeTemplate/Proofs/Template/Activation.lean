import TreeTemplate.Document.Blueprint
import TreeTemplate.Proofs.Template.Cache
import TreeTemplate.Proofs.Template.Naming
import TreeTemplate.Proofs.Template.Visiting

/-!
# The listeners of an element

An element has one listener for an event at most. First come those of the caller, in the order of
their events, and then those of the policies that apply, in the order of the policies, each unless
the caller or an earlier policy that applies has its event. So a policy that is added makes no
difference to an element where it does not apply or where its event is taken.
-/
set_option autoImplicit false

namespace TreeTemplate

variable {ι ω : Type}

def IsTaken (document : Document) (id : NodeId) (own : List Text)
    (earlier : List (ActivationPolicy ι ω)) (event : Text) : Prop :=
  event ∈ own ∨ ∃ policy ∈ earlier, policy.appliesTo document id = true ∧ policy.event = event

instance decidableIsTaken (document : Document) (id : NodeId) (own : List Text)
    (earlier : List (ActivationPolicy ι ω)) (event : Text) :
    Decidable (IsTaken document id own earlier event) :=
  inferInstanceAs (Decidable (_ ∨ _))

/-- Whether the policy at a place of the list gives its listener to the element: it applies, and its
event is not taken before. -/
def isGiven (document : Document) (id : NodeId) (own : List Text)
    (policies : List (ActivationPolicy ι ω)) (placed : ActivationPolicy ι ω × Nat) : Bool :=
  placed.1.appliesTo document id &&
    !decide (IsTaken document id own (policies.take placed.2) placed.1.event)

def Surroundings.given (surroundings : Surroundings ι ω) (document : Document) (id : NodeId) :
    Entries Text (Listener ι ω) :=
  let own := (surroundings.metadata.ofNode id).listeners.keys
  (surroundings.policies.zipIdx.filter (isGiven document id own surroundings.policies)).map
    fun placed => (placed.1.event, placed.1.listener id)

section Policies
variable {document : Document} {id : NodeId}

theorem isTaken_concat (own : List Text) (earlier : List (ActivationPolicy ι ω))
    (policy : ActivationPolicy ι ω) (event : Text) :
    IsTaken document id own (earlier ++ [policy]) event ↔
      IsTaken document id own earlier event ∨
        (policy.appliesTo document id = true ∧ policy.event = event) := by
  simp only [IsTaken, List.mem_append, List.mem_singleton, or_and_right, exists_or, exists_eq_left,
    or_assoc]

/-- The events that are taken on the way through the policies are those of the caller and of the
policies passed that apply, whether these gave their listeners or not. -/
theorem synthesize_eq_filter (own : List Text) (earlier policies : List (ActivationPolicy ι ω))
    (taken : List Text) (same : ∀ event, event ∈ taken ↔ IsTaken document id own earlier event) :
    ActivationPolicy.synthesize document id policies taken =
      ((policies.zipIdx earlier.length).filter
          (isGiven document id own (earlier ++ policies))).map
        fun placed => (placed.1.event, placed.1.listener id) := by
  induction policies generalizing earlier taken with
  | nil => rfl
  | cons policy rest ih =>
    have whole : earlier ++ policy :: rest = (earlier ++ [policy]) ++ rest := by simp
    have count : earlier.length + 1 = (earlier ++ [policy]).length := by simp
    have head : isGiven document id own (earlier ++ policy :: rest) (policy, earlier.length) =
        (policy.appliesTo document id && !taken.contains policy.event) := by
      have contained : taken.contains policy.event =
          decide (IsTaken document id own earlier policy.event) := by
        rw [Bool.eq_iff_iff, List.contains_iff_mem, decide_eq_true_iff]
        exact same policy.event
      rw [isGiven, List.take_left, contained]
    rw [ActivationPolicy.synthesize, List.zipIdx_cons, List.filter_cons, head, whole, count]
    split
    · rename_i gives
      rw [Bool.and_eq_true] at gives
      rw [List.map_cons]
      congr 1
      refine ih (earlier ++ [policy]) (policy.event :: taken) ?_
      intro event
      rw [isTaken_concat, List.mem_cons, same, or_comm]
      simp [gives.1, eq_comm]
    · rename_i passed
      refine ih (earlier ++ [policy]) taken ?_
      intro event
      rw [isTaken_concat, ← same]
      refine ⟨Or.inl, ?_⟩
      rintro (already | ⟨applies, rfl⟩)
      · exact already
      · simpa [applies] using passed

variable (document id) in
/-- No policy gives a listener for an event that was taken, and no two give one for the same event. -/
theorem keys_synthesize (policies : List (ActivationPolicy ι ω)) (taken : List Text) :
    Entries.Distinct (ActivationPolicy.synthesize document id policies taken) ∧
      ∀ event ∈ Entries.keys (ActivationPolicy.synthesize document id policies taken),
        event ∉ taken := by
  induction policies generalizing taken with
  | nil => exact ⟨Entries.distinct_nil, fun _ impossible => absurd impossible List.not_mem_nil⟩
  | cons policy rest ih =>
    rw [ActivationPolicy.synthesize]
    split
    · rename_i gives
      obtain ⟨distinct, fresh⟩ := ih (policy.event :: taken)
      have free : policy.event ∉ taken := by
        rw [Bool.and_eq_true] at gives
        simpa using gives.2
      refine ⟨List.nodup_cons.mpr ⟨?_, distinct⟩, ?_⟩
      · intro repeated
        exact fresh policy.event repeated List.mem_cons_self
      · intro event member
        rcases List.mem_cons.mp member with rfl | later
        · exact free
        · exact fun already => fresh event later (List.mem_cons_of_mem _ already)
    · exact ih taken

theorem mem_keys_synthesize (policies : List (ActivationPolicy ι ω)) (taken : List Text)
    (policy : ActivationPolicy ι ω) (member : policy ∈ policies)
    (applies : policy.appliesTo document id = true) :
    policy.event ∈ taken ∨
      policy.event ∈ Entries.keys (ActivationPolicy.synthesize document id policies taken) := by
  induction policies generalizing taken with
  | nil => cases member
  | cons first rest ih =>
    rw [ActivationPolicy.synthesize]
    rcases List.mem_cons.mp member with rfl | later
    · by_cases already : policy.event ∈ taken
      · exact Or.inl already
      · rw [if_pos (by simp [applies, already])]
        exact Or.inr List.mem_cons_self
    · split
      · rcases ih (first.event :: taken) later with already | given
        · rcases List.mem_cons.mp already with same | before
          · rw [same]
            exact Or.inr List.mem_cons_self
          · exact Or.inl before
        · exact Or.inr (List.mem_cons_of_mem _ given)
      · exact ih taken later

end Policies

structure Surroundings.Listens (surroundings : Surroundings ι ω) (document : Document) (id : NodeId)
    (listeners : Entries Text (Listener ι ω)) : Prop where
  parts : listeners =
    (surroundings.metadata.ofNode id).listeners.entries ++ surroundings.given document id
  ordered : Ascending (surroundings.metadata.ofNode id).listeners.entries
  distinct : Entries.Distinct listeners
  served : ∀ policy ∈ surroundings.policies, policy.appliesTo document id = true →
    policy.event ∈ Entries.keys listeners

theorem listens_listenersAt (surroundings : Surroundings ι ω) (document : Document) (id : NodeId) :
    surroundings.Listens document id (surroundings.listenersAt document id) := by
  let own := (surroundings.metadata.ofNode id).listeners
  obtain ⟨distinct, fresh⟩ := keys_synthesize document id surroundings.policies own.keys
  refine
    { parts := ?_
      ordered := own.ascending
      distinct := ?_
      served := ?_ }
  · have none (event : Text) : event ∈ own.keys ↔
        IsTaken document id own.keys ([] : List (ActivationPolicy ι ω)) event := by
      simp [IsTaken]
    exact congrArg (own.entries ++ ·)
      (synthesize_eq_filter own.keys [] surroundings.policies own.keys none)
  · rw [Entries.Distinct, Entries.keys, Surroundings.listenersAt, List.map_append]
    refine List.nodup_append.mpr ⟨distinct_of_ascending own.ascending, distinct, ?_⟩
    rintro event isOwn other isGiven rfl
    exact fresh event isGiven isOwn
  · intro policy member applies
    rw [Entries.keys, Surroundings.listenersAt, List.map_append, List.mem_append]
    exact mem_keys_synthesize surroundings.policies own.keys policy member applies

structure Passage where
  stop : Stop
  document : Document

def Passage.segments (surroundings : Surroundings ι ω) (passage : Passage) : List (Segment ι ω) :=
  passage.stop.segments surroundings passage.document

/-- The policy makes no difference at the passage: if an element is entered there, the policy does not
apply to it, or its event is taken by the caller or by one of the policies before it. -/
def Passage.Spares (metadata : Metadata ι ω) (before : List (ActivationPolicy ι ω))
    (policy : ActivationPolicy ι ω) (passage : Passage) : Prop :=
  ∀ id ∈ passage.stop.entered, policy.appliesTo passage.document id = false ∨
    IsTaken passage.document id (metadata.ofNode id).listeners.keys before policy.event

instance decidableSpares (metadata : Metadata ι ω) (before : List (ActivationPolicy ι ω))
    (policy : ActivationPolicy ι ω) (passage : Passage) :
    Decidable (passage.Spares metadata before policy) :=
  List.decidableBAll _ _

section Passages
variable {surroundings : Surroundings ι ω}

end Passages

/-! ## A compile -/

/-- The template is written passage by passage, with the listeners of each element that is entered. A
function name stands for the handler of the listener that it is written for. -/
structure WritesListeners (surroundings : Surroundings ι ω) (named : SortedMap Text (Provider ι))
    (passed : List Passage) (compiled : CompiledTemplate ι ω) : Prop where
  written : compiled.template =
    numbered named 0 0 (passed.flatMap (Passage.segments surroundings)) ++ ['\n']
  functions : ∀ name handler, compiled.bindings.functions.find? name = some handler ↔
    IsCalled (passed.flatMap fun passage => listenersOf (passage.segments surroundings)) name handler
  elements : ∀ passage ∈ passed, ∀ id ∈ passage.stop.entered,
    surroundings.Listens passage.document id (listenersOf (passage.segments surroundings))

/-- The passage is written behind what is written for those before it, its properties and functions
counted from what these have. -/
theorem WritesListeners.split {surroundings : Surroundings ι ω} {named : SortedMap Text (Provider ι)}
    {left right : List Passage} {passage : Passage} {compiled : CompiledTemplate ι ω}
    (writes : WritesListeners surroundings named (left ++ passage :: right) compiled) :
    let bound := left.flatMap fun passage => bindingsOf (passage.segments surroundings)
    ∃ heard behind, compiled.template =
      numbered named 0 0 (left.flatMap (Passage.segments surroundings)) ++
        (numbered named bound.length heard (passage.segments surroundings) ++ behind) := by
  intro bound
  have bindings : bindingsOf (left.flatMap (Passage.segments surroundings)) = bound :=
    List.flatMap_assoc
  have written := writes.written
  rw [List.flatMap_append, List.flatMap_cons, numbered_append, numbered_append, bindings,
    Nat.zero_add, List.append_assoc, List.append_assoc] at written
  exact ⟨_, _, written⟩

end TreeTemplate
