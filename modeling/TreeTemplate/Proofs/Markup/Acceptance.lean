import TreeTemplate.Markup.Basic
import TreeTemplate.Proofs.Markup.Derivation
import TreeTemplate.Proofs.Markup.Parsing

/-!
# Acceptance of markup

Markup is refused as malformed exactly if its grammar does not derive it. What can be derived can be
spelled, so that the reader gets it back; the reader goes wrong exactly where parsing does; and what
parsing accepts can be derived. What is found wrong later on, when the trees are interpreted, is
reported in another way.
-/
set_option autoImplicit false

namespace TreeTemplate.Markup

open Text

def NotMalformed {α : Type} (result : Except MarkupError α) : Prop :=
  ∀ position, result ≠ .error (.malformed position)

section Interpretation
variable {α β : Type}

theorem notMalformed_ok (value : α) : NotMalformed (.ok value) := by
  intro position impossible
  cases impossible

theorem NotMalformed.bind {result : Except MarkupError α} {next : α → Except MarkupError β}
    (first : NotMalformed result) (second : ∀ value, NotMalformed (next value)) :
    NotMalformed (result >>= next) := by
  intro position failed
  cases result with
  | error reason =>
    obtain rfl := Except.error.inj failed
    exact first position rfl
  | ok value => exact second value position failed

theorem notMalformed_neededValue (item : Item) : NotMalformed item.neededValue := by
  intro position failed
  rw [Item.neededValue] at failed
  split at failed <;> cases failed

theorem notMalformed_readMode (value : Text) : NotMalformed (readMode value) := by
  intro position failed
  rw [readMode] at failed
  split at failed
  · cases failed
  · split at failed <;> cases failed

theorem notMalformed_typedValue (name kind value : Text) :
    NotMalformed (typedValue name kind value) := by
  intro position failed
  unfold typedValue at failed
  dsimp only at failed
  repeat' split at failed
  all_goals cases failed

theorem notMalformed_declare (item : Item) : NotMalformed item.declare := by
  have needed := notMalformed_neededValue item
  unfold Item.declare
  split
  · exact needed.bind fun _ => notMalformed_ok _
  · exact needed.bind fun _ => notMalformed_ok _
  · exact notMalformed_ok _
  · refine needed.bind fun value => ?_
    exact (notMalformed_typedValue _ _ value).bind fun _ => notMalformed_ok _
  · split
    · refine needed.bind fun value => ?_
      exact (notMalformed_readMode value).bind fun _ => notMalformed_ok _
    · exact notMalformed_ok _

theorem notMalformed_declareAll (items : List Item) : NotMalformed (Item.declareAll items) := by
  induction items with
  | nil => exact notMalformed_ok _
  | cons first rest ih =>
    exact (notMalformed_declare first).bind fun _ => ih.bind fun _ => notMalformed_ok _

mutual

theorem notMalformed_interpret (written : Written) : NotMalformed written.interpret := by
  cases written with
  | text raw => exact notMalformed_ok _
  | void tag items => exact (notMalformed_declareAll items).bind fun _ => notMalformed_ok _
  | paired tag items children closing =>
    refine (notMalformed_declareAll items).bind fun _ => ?_
    refine (notMalformed_interpretAll children).bind fun _ => ?_
    split
    · exact notMalformed_ok _
    · intro position impossible
      cases impossible

theorem notMalformed_interpretAll (trees : List Written) :
    NotMalformed (Written.interpretAll trees) := by
  cases trees with
  | nil => exact notMalformed_ok _
  | cons first rest =>
    refine (notMalformed_interpret first).bind fun _ => ?_
    exact (notMalformed_interpretAll rest).bind fun _ => notMalformed_ok _

end

end Interpretation

/-- A source is read to its end exactly if it can be derived. -/
theorem toBool_readForest_iff (source : Text) :
    (readForest [] [] source).toBool = true ↔ Derives (.rule .document) source := by
  constructor
  · intro accepted
    have runs := runs_document source
    rw [if_pos accepted] at runs
    obtain ⟨part, rfl, derives⟩ := runs.derives
    rwa [List.append_nil]
  · intro derives
    obtain ⟨nodes, last, rfl, inside, finished⟩ := derives_chain (derives_rule derives)
    cases finished
    obtain ⟨trees, spells⟩ := exists_spelling nodes inside
    rw [readForest_spelling spells [] (endsBefore_nil _), readForest]
    rfl

theorem parse_malformed_iff (source : Text) :
    (∃ position, Markup.parse source = .error (.malformed position)) ↔
      (readForest [] [] source).toBool = false := by
  rw [Markup.parse, read]
  cases readForest [] [] source with
  | error stuck => exact ⟨fun _ => rfl, fun _ => ⟨_, rfl⟩⟩
  | ok trees =>
    constructor
    · rintro ⟨position, failed⟩
      dsimp only at failed
      split at failed
      · rename_i reason wrong
        obtain rfl := Except.error.inj failed
        exact absurd wrong (notMalformed_interpretAll trees position)
      · cases failed
      · cases failed
    · intro impossible
      cases impossible

/-- A source is refused as malformed exactly if the grammar does not derive it as a context-free
grammar. Parsing with ordered choices and greedy repetitions comes to the same: it never fails on a
source that can be derived, and never leaves a part of it. -/
theorem parse_follows_grammar (source : Text) :
    ((∃ position, Markup.parse source = .error (.malformed position)) ↔
        ¬Derives (.rule .document) source) ∧
      (Runs (.rule .document) source (some []) ↔ Derives (.rule .document) source) ∧
      (Runs (.rule .document) source none ↔ ¬Derives (.rule .document) source) := by
  have accepts := toBool_readForest_iff source
  have runs := runs_document source
  rw [parse_malformed_iff, ← accepts]
  cases read : (readForest [] [] source).toBool with
  | true =>
    rw [read, if_pos rfl] at runs
    refine ⟨by simp, ⟨fun _ => rfl, fun _ => runs⟩, ?_⟩
    constructor
    · intro fails
      cases runs.functional fails
    · intro underived
      exact absurd rfl underived
  | false =>
    rw [read, if_neg Bool.false_ne_true] at runs
    refine ⟨by simp, ?_, ⟨fun _ => Bool.false_ne_true, fun _ => runs⟩⟩
    constructor
    · intro accepted
      cases runs.functional accepted
    · intro impossible
      cases impossible

end TreeTemplate.Markup
