import TreeTemplate.Proofs.Template.Visiting

/-!
# When a compile fails

A compile fails at the first obstacle of its walk: an identity without a node, or an element with a
null among its literal properties that no dynamic property replaces. Nothing else in the document or
around it has a say in this.
-/
set_option autoImplicit false

namespace TreeTemplate

variable {ι ω : Type}

def Document.unboundNulls (metadata : Metadata ι ω) (document : Document) (id : NodeId) : List Text :=
  ((document.properties id).filter fun pair =>
    pair.2.isNull && !(metadata.ofNode id).properties.keys.contains pair.1).map Prod.fst

/-- Why a compile cannot go on behind an identity: it has no node, or one of its properties cannot be
written, of which the first counts. -/
inductive Document.Obstructs (metadata : Metadata ι ω) (document : Document) :
    NodeId → TemplateError → Prop where
  | unknownNode {id : NodeId} (missing : document.hasNode id = false) :
      Obstructs metadata document id (.unknownNode id)
  | unsupportedValue {id : NodeId} {name : Text}
      (isFirst : (document.unboundNulls metadata id).head? = some name) :
      Obstructs metadata document id (.unsupportedValue name)

/-- The links between the nodes are the same, and so are the properties that cannot be written. The
attributes, the texts, the other properties and what else is attached may differ. -/
structure Document.SameObstacles (metadata others : Metadata ι ω) (document changed : Document) :
    Prop where
  nodes : changed.hasNode = document.hasNode
  children : changed.children = document.children
  nulls : changed.unboundNulls others = document.unboundNulls metadata

section Obstacles
variable {metadata : Metadata ι ω} {document : Document}

theorem unboundNulls_of_missing {id : NodeId} (missing : document.hasNode id = false) :
    document.unboundNulls metadata id = [] := by
  cases found : document.node? id with
  | none => simp [Document.unboundNulls, Document.properties, Document.element?, found]
  | some node =>
    rw [Document.hasNode_of_node? found] at missing
    cases missing

/-- An identity is an obstacle if it has no node, or something unwritable is attached to it. -/
theorem fault?_eq_unboundNulls (id : NodeId) :
    document.fault? metadata id =
      if document.hasNode id then
        (document.unboundNulls metadata id).head?.map TemplateError.unsupportedValue
      else some (.unknownNode id) := by
  rw [Document.fault?, Document.unboundNulls, Document.properties, Document.element?]
  cases found : document.node? id with
  | none => simp [Document.not_hasNode_of_node? found]
  | some node =>
    have isNode := Document.hasNode_of_node? found
    cases node with
    | text content => simp [isNode, Node.element?]
    | element element => simp [isNode, Node.element?, Element.fault?, Function.comp_def]

theorem fault?_eq_some_iff_obstructs (id : NodeId) (reason : TemplateError) :
    document.fault? metadata id = some reason ↔ document.Obstructs metadata id reason := by
  rw [fault?_eq_unboundNulls]
  constructor
  · intro faulty
    split at faulty
    · obtain ⟨name, isFirst, rfl⟩ := Option.map_eq_some_iff.mp faulty
      exact .unsupportedValue isFirst
    · rename_i missing
      obtain rfl := Option.some.inj faulty
      exact .unknownNode (Bool.eq_false_iff.mpr missing)
  · intro obstructs
    cases obstructs with
    | unknownNode missing => simp [missing]
    | @unsupportedValue name isFirst =>
      cases isNode : document.hasNode id with
      | true => simp [isFirst]
      | false =>
        rw [unboundNulls_of_missing isNode] at isFirst
        cases isFirst

theorem fault?_eq_none_iff_writable (id : NodeId) :
    document.fault? metadata id = none ↔
      document.hasNode id = true ∧ document.unboundNulls metadata id = [] := by
  rw [fault?_eq_unboundNulls]
  cases document.hasNode id <;> simp

/-- The same obstacles stand in the way of the same walks. -/
theorem Document.SameObstacles.fault? {others : Metadata ι ω} {changed : Document}
    (same : document.SameObstacles metadata others changed) :
    changed.fault? others = document.fault? metadata := by
  funext id
  rw [fault?_eq_unboundNulls, fault?_eq_unboundNulls, same.nodes, same.nulls]

end Obstacles

theorem outcome_eq_error_iff (compilation : Compilation ι ω) (reason : TemplateError) :
    compilation.outcome = .error reason ↔ compilation.fault? = some reason := by
  rw [Compilation.fault?]
  cases compilation.outcome with
  | ok compiled => simp
  | error own => simp

theorem exists_outcome_iff (compilation : Compilation ι ω) :
    (∃ compiled, compilation.outcome = .ok compiled) ↔ compilation.fault? = none := by
  rw [Compilation.fault?]
  cases compilation.outcome with
  | ok compiled => simp
  | error own => simp

/-- A first compile walks in pre-order over the identities below its roots. It fails exactly if there
is an obstacle on the walk, and then for the first one. What is the same but for other things than
obstacles, with whatever policies and named properties, fails for the same reason or succeeds alike. -/
theorem Compiler.run_fails_for_first_obstacle (surroundings : Surroundings ι ω)
    (document : Document) (roots : List NodeId) (named : SortedMap Text (Provider ι))
    (acyclic : document.AcyclicBelow roots) :
    let first := ((fresh surroundings document).run roots named).1
    (∃ occurrences, document.Preorder roots occurrences) ∧
      (∀ occurrences, document.Preorder roots occurrences →
        (∀ reason, first.outcome = .error reason ↔
          ∃ before failing rest, occurrences = before ++ failing :: rest ∧
            (∀ id ∈ before, document.hasNode id = true ∧
              document.unboundNulls surroundings.metadata id = []) ∧
            document.Obstructs surroundings.metadata failing reason) ∧
        ((∃ compiled, first.outcome = .ok compiled) ↔
          ∀ id ∈ occurrences, document.hasNode id = true ∧
            document.unboundNulls surroundings.metadata id = [])) ∧
      ∀ (others : Surroundings ι ω) (changed : Document) (names : SortedMap Text (Provider ι)),
        document.SameObstacles surroundings.metadata others.metadata changed →
          ((fresh others changed).run roots names).1.fault? = first.fault? := by
  intro first
  have bounded := document.bounded_tour acyclic surroundings.metadata.interpolation
  obtain ⟨occurrences, preorder⟩ := preorder_of_bounded_tour _ _ _ _ bounded
  refine ⟨⟨occurrences, preorder⟩, ?_, ?_⟩
  · intro walk isWalk
    have fault : first.fault? = _ := compile_fault?_eq surroundings document roots named acyclic isWalk
    constructor
    · intro reason
      rw [outcome_eq_error_iff, fault, List.findSome?_eq_some_iff]
      simp only [fault?_eq_some_iff_obstructs, fault?_eq_none_iff_writable]
      constructor
      · rintro ⟨before, failing, rest, shape, obstructs, sound⟩
        exact ⟨before, failing, rest, shape, sound, obstructs⟩
      · rintro ⟨before, failing, rest, shape, sound, obstructs⟩
        exact ⟨before, failing, rest, shape, obstructs, sound⟩
    · rw [exists_outcome_iff, fault, List.findSome?_eq_none_iff]
      simp only [fault?_eq_none_iff_writable]
  · intro others changed names same
    have fault : first.fault? = _ :=
      compile_fault?_eq surroundings document roots named acyclic preorder
    have otherFault := compile_fault?_eq others changed roots names (acyclic.congr same.children)
      (preorder.congr same.children)
    rw [same.fault?] at otherFault
    exact otherFault.trans fault.symm

/-- A card around an open backtick and a button with two nulls, which it shows twice, and a child that
does not exist. -/
def hintedCard : Document :=
  let button : Blueprint := .element "button".toList [("title".toList, "`".toList)]
    [("kind".toList, .json .null), ("hint".toList, .json .null)] []
  let (card, document) :=
    Document.empty.build (.element "div".toList [] [] [.text "`".toList, button])
  (document.appendChild card 2).appendChild card 7

def buttonKind : Surroundings Json Text where
  metadata := SortedMap.empty.insert 2 { NodeMetadata.bare with
    properties := SortedMap.empty.insert "kind".toList (fieldProvider "kind".toList) }
  policies := [.forTag "button".toList "tap".toList fun _ _ => "tapped".toList]

/-- The compile fails for the null that is not bound, before it gets to the missing child. -/
theorem hinted_card_fails_for_its_hint :
    let first := ((Compiler.fresh buttonKind hintedCard).run [0] SortedMap.empty).1
    hintedCard.AcyclicBelow [0] ∧ first.outcome = .error (.unsupportedValue "hint".toList) ∧
      ∃ before failing rest, hintedCard.Preorder [0] (before ++ failing :: rest) ∧
        (∀ id ∈ before, hintedCard.hasNode id = true ∧
          hintedCard.unboundNulls buttonKind.metadata id = []) ∧
        hintedCard.Obstructs buttonKind.metadata failing (.unsupportedValue "hint".toList) := by
  intro first
  have forward : ∀ parent < hintedCard.size, ∀ child ∈ hintedCard.children parent,
      parent < child := by
    decide +kernel
  have acyclic := Document.acyclicBelow_of_forward [0] forward
  obtain ⟨⟨occurrences, preorder⟩, characterized, -⟩ :=
    Compiler.run_fails_for_first_obstacle buttonKind hintedCard [0] SortedMap.empty acyclic
  have fails : first.outcome = .error (.unsupportedValue "hint".toList) := by
    rw [outcome_eq_error_iff]
    decide +kernel
  obtain ⟨before, failing, rest, rfl, sound, obstructs⟩ :=
    ((characterized occurrences preorder).1 _).mp fails
  exact ⟨acyclic, fails, before, failing, rest, preorder, sound, obstructs⟩

end TreeTemplate
