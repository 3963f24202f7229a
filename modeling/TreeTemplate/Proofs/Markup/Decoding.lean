import TreeTemplate.Markup.Entity
import TreeTemplate.Proofs.Text.Replacing
import TreeTemplate.Template.Encoding

/-!
# Decoding what was escaped

A text is written in markup character by character: as an entity, or as itself, where an ampersand
stands for itself only if no entity begins there. However it is written, it decodes to itself, and
whatever is decoded was written in this way. Each pass of the decoder restores one character, and
what it restores belongs to no other entity; the ampersand comes last.
-/
set_option autoImplicit false

namespace TreeTemplate.Markup

def entityText (character : Char) : Text :=
  match entities.find? fun entity => entity.2 = character with
  | some entity => entity.1
  | none => [character]

/-- A character as it is written where the characters of a class are spelled as entities. -/
def spelled (escapes : Char → Bool) (character : Char) : Text :=
  if escapes character then entityText character else [character]

theorem entityText_cases (character : Char) :
    (entityText character, character) ∈ entities ∨ entityText character = [character] := by
  rw [entityText]
  split
  · rename_i entity found
    have same : entity.2 = character := by simpa using List.find?_some found
    rw [← same]
    exact Or.inl (List.mem_of_find?_eq_some found)
  · exact Or.inr rfl

/-- A text as it is written where the characters of a table can be spelled as entities. -/
inductive Encodes (table : List (Text × Char)) : Text → Text → Prop where
  | done : Encodes table [] []
  | plain {character : Char} {raw content : Text} (other : character ≠ '&')
      (later : Encodes table raw content) :
      Encodes table (character :: raw) (character :: content)
  | entity {entity : Text} {character : Char} {raw content : Text}
      (isEntity : (entity, character) ∈ table) (later : Encodes table raw content) :
      Encodes table (entity ++ raw) (character :: content)
  | ampersand {raw content : Text} (bare : ∀ entity ∈ table, ¬entity.1 <+: '&' :: raw)
      (later : Encodes table raw content) :
      Encodes table ('&' :: raw) ('&' :: content)

def IsMarked (entity : Text × Char) : Prop :=
  entity.1.head? = some '&' ∧ '&' ∉ entity.1.tail

/-- The second entity is still there, and the only one of its kind, once the first is restored. -/
def Survives (first second : Text × Char) : Prop :=
  ¬first.1 <+: second.1 ∧ ¬second.1 <+: first.1 ∧ first.2 ∉ second.1.tail ∧ first.2 ≠ '&'

instance decidableIsMarked (entity : Text × Char) : Decidable (IsMarked entity) :=
  inferInstanceAs (Decidable (_ ∧ _))

instance decidableSurvives (first second : Text × Char) : Decidable (Survives first second) :=
  inferInstanceAs (Decidable (_ ∧ _ ∧ _ ∧ _))

theorem IsMarked.shape {entity : Text × Char} (isMarked : IsMarked entity) :
    ∃ body, entity.1 = '&' :: body ∧ '&' ∉ body := by
  obtain ⟨text, character⟩ := entity
  obtain ⟨starts, single⟩ := isMarked
  cases text with
  | nil => cases starts
  | cons first body => exact ⟨body, congrArg (· :: body) (Option.some.inj starts), single⟩

theorem Survives.apart {first second : Text × Char} (survives : Survives first second)
    (behind : Text) : first.1.isPrefixOf (second.1 ++ behind) = false := by
  rw [Bool.eq_false_iff, ne_eq, List.isPrefixOf_iff_prefix]
  intro begins
  rcases List.prefix_or_prefix_of_prefix begins (List.prefix_append second.1 behind) with
    left | right
  · exact survives.1 left
  · exact survives.2.1 right

/-- A run that a pass can neither touch nor bring about is there before the pass. -/
theorem isPrefix_of_replaced {body run raw : Text} {restored : Char} (ampersand : '&' ∉ run)
    (absent : restored ∉ run) (begins : run <+: Text.replaceAll ('&' :: body) [restored] raw) :
    run <+: raw := by
  induction run generalizing raw with
  | nil => exact List.nil_prefix
  | cons first others ih =>
    rw [List.mem_cons, not_or] at ampersand absent
    cases raw with
    | nil => exact begins
    | cons head rest =>
      cases occurs : ('&' :: body).isPrefixOf (head :: rest) with
      | true =>
        obtain ⟨behind, shape⟩ := List.isPrefixOf_iff_prefix.mp occurs
        rw [← shape, Text.replaceAll_occurrence (List.cons_ne_nil _ _)] at begins
        exact absurd (List.cons_prefix_cons.mp begins).1.symm absent.1
      | false =>
        rw [Text.replaceAll_kept occurs, List.cons_prefix_cons] at begins
        exact List.cons_prefix_cons.mpr ⟨begins.1, ih ampersand.2 absent.2 begins.2⟩

theorem isPrefix_replaced {body run raw : Text} {restored : Char} (ampersand : '&' ∉ run)
    (begins : run <+: raw) : run <+: Text.replaceAll ('&' :: body) [restored] raw := by
  obtain ⟨behind, rfl⟩ := begins
  rw [Text.replaceAll_run ampersand]
  exact List.prefix_append _ _

/-- A pass restores the first entity of the table, and leaves the others to be restored. -/
theorem Encodes.pass {first : Text × Char} {rest : List (Text × Char)} (isMarked : IsMarked first)
    (areMarked : ∀ other ∈ rest, IsMarked other) (survive : ∀ other ∈ rest, Survives first other)
    {raw content : Text} (encodes : Encodes (first :: rest) raw content) :
    Encodes rest (Text.replaceAll first.1 [first.2] raw) content := by
  obtain ⟨body, begins, -⟩ := isMarked.shape
  have filled : first.1 ≠ [] := by simp [begins]
  induction encodes with
  | done => exact .done
  | @plain character raw content other later ih =>
    have kept : first.1.isPrefixOf (character :: raw) = false := by
      simp [begins, List.isPrefixOf, other.symm]
    rw [Text.replaceAll_kept kept]
    exact .plain other ih
  | @entity entity character raw content isEntity later ih =>
    rcases List.mem_cons.mp isEntity with rfl | isOther
    · rw [Text.replaceAll_occurrence filled]
      by_cases isAmpersand : character = '&'
      · -- Behind the ampersand there is nothing left to restore.
        cases rest with
        | nil =>
          subst isAmpersand
          exact .ampersand (List.forall_mem_nil _) ih
        | cons other _ => exact absurd isAmpersand (survive other List.mem_cons_self).2.2.2
      · exact .plain isAmpersand ih
    · -- The ampersand of another entity begins no occurrence, and there is no second one in it.
      obtain ⟨inner, shape, single⟩ := (areMarked _ isOther).shape
      have absent := (survive _ isOther).apart raw
      have moved : Text.replaceAll first.1 [first.2] (entity ++ raw) =
          entity ++ Text.replaceAll first.1 [first.2] raw := by
        simp only at shape absent
        rw [shape, List.cons_append] at absent ⊢
        rw [Text.replaceAll_kept absent, begins, Text.replaceAll_run single, List.cons_append]
      rw [moved]
      exact .entity isOther ih
  | @ampersand raw content bare later ih =>
    have absent : first.1.isPrefixOf ('&' :: raw) = false := by
      rw [Bool.eq_false_iff, ne_eq, List.isPrefixOf_iff_prefix]
      exact bare first List.mem_cons_self
    rw [Text.replaceAll_kept absent]
    refine .ampersand ?_ ih
    intro other isOther starts
    obtain ⟨inner, shape, single⟩ := (areMarked other isOther).shape
    have unrestored := (survive other isOther).2.2.1
    refine bare other (List.mem_cons_of_mem _ isOther) ?_
    rw [shape, List.cons_prefix_cons] at starts ⊢
    rw [shape, List.tail_cons] at unrestored
    rw [begins] at starts
    exact ⟨rfl, isPrefix_of_replaced single unrestored starts.2⟩

theorem Encodes.restored {table : List (Text × Char)} (areMarked : ∀ entity ∈ table, IsMarked entity)
    (survive : table.Pairwise Survives) {raw content : Text} (encodes : Encodes table raw content) :
    table.foldl (fun decoded entity => Text.replaceAll entity.1 [entity.2] decoded) raw =
      content := by
  induction table generalizing raw with
  | nil =>
    rw [List.foldl_nil]
    induction encodes with
    | done => rfl
    | plain other later ih => rw [ih]
    | entity isEntity later ih => cases isEntity
    | ampersand bare later ih => rw [ih]
  | cons first rest ih =>
    rw [List.forall_mem_cons] at areMarked
    rw [List.pairwise_cons] at survive
    exact ih areMarked.2 survive.2 (encodes.pass areMarked.1 areMarked.2 survive.1)

theorem Encodes.of_nil {table : List (Text × Char)} (areMarked : ∀ entity ∈ table, IsMarked entity)
    {content : Text} (encodes : Encodes table [] content) : content = [] := by
  generalize nothing : ([] : Text) = raw at encodes
  cases encodes with
  | done => rfl
  | plain other later => cases nothing
  | entity isEntity later =>
    obtain ⟨body, shape, -⟩ := (areMarked _ isEntity).shape
    simp only at shape
    rw [shape] at nothing
    cases nothing
  | ampersand bare later => cases nothing

/-- How a text with a first character is written: that character stands for itself, or begins an
entity, or is an ampersand with no entity. -/
theorem Encodes.of_cons {table : List (Text × Char)} (areMarked : ∀ entity ∈ table, IsMarked entity)
    {head : Char} {tail content : Text} (encodes : Encodes table (head :: tail) content) :
    (∃ later, head ≠ '&' ∧ content = head :: later ∧ Encodes table tail later) ∨
      (∃ body character behind later, ('&' :: body, character) ∈ table ∧ head = '&' ∧
        tail = body ++ behind ∧ content = character :: later ∧ Encodes table behind later) ∨
      ∃ later, (∀ entity ∈ table, ¬entity.1 <+: '&' :: tail) ∧ head = '&' ∧
        content = '&' :: later ∧ Encodes table tail later := by
  generalize whole : head :: tail = raw at encodes
  cases encodes with
  | done => cases whole
  | plain other later =>
    obtain ⟨rfl, rfl⟩ := List.cons.inj whole
    exact Or.inl ⟨_, other, rfl, later⟩
  | entity isEntity later =>
    obtain ⟨body, shape, -⟩ := (areMarked _ isEntity).shape
    simp only at shape
    rw [shape] at whole isEntity
    obtain ⟨rfl, rfl⟩ := List.cons.inj whole
    exact Or.inr (Or.inl ⟨body, _, _, _, isEntity, rfl, rfl, rfl, later⟩)
  | ampersand bare later =>
    obtain ⟨rfl, rfl⟩ := List.cons.inj whole
    exact Or.inr (Or.inr ⟨_, bare, rfl, rfl, later⟩)

/-- Whatever a pass leaves was written with the entity that it restores, or with none. -/
theorem Encodes.before_pass {first : Text × Char} {rest : List (Text × Char)}
    (isMarked : IsMarked first) (areMarked : ∀ other ∈ rest, IsMarked other)
    (survive : ∀ other ∈ rest, Survives first other) (raw : Text) {content : Text}
    (encodes : Encodes rest (Text.replaceAll first.1 [first.2] raw) content) :
    Encodes (first :: rest) raw content := by
  obtain ⟨body, begins, -⟩ := isMarked.shape
  -- A pass goes on behind the entity that it restores, so the induction is on the length.
  induction length : raw.length using Nat.strongRecOn generalizing raw content with
  | ind bound ih =>
    subst length
    cases raw with
    | nil =>
      rw [encodes.of_nil areMarked]
      exact .done
    | cons head tail =>
      have shorter (other : Text) (less : other.length ≤ tail.length) {content : Text}
          (encodes : Encodes rest (Text.replaceAll first.1 [first.2] other) content) :
          Encodes (first :: rest) other content :=
        ih other.length (Nat.lt_succ_of_le less) other encodes rfl
      cases occurs : first.1.isPrefixOf (head :: tail) with
      | true =>
        obtain ⟨behind, shape⟩ := List.isPrefixOf_iff_prefix.mp occurs
        have less : behind.length ≤ tail.length := by
          rw [begins, List.cons_append] at shape
          rw [← (List.cons.inj shape).2, List.length_append]
          omega
        have filled : first.1 ≠ [] := by simp [begins]
        rw [← shape, Text.replaceAll_occurrence filled, List.singleton_append] at encodes
        rw [← shape]
        rcases encodes.of_cons areMarked with ⟨later, -, rfl, encodesLater⟩ |
          ⟨inner, character, _, later, isEntity, restored, -⟩ | ⟨later, -, restored, rfl, encodesLater⟩
        · exact .entity List.mem_cons_self (shorter behind less encodesLater)
        · exact absurd restored (survive _ isEntity).2.2.2
        · rw [← restored]
          exact .entity List.mem_cons_self (shorter behind less encodesLater)
      | false =>
        rw [Text.replaceAll_kept occurs] at encodes
        rcases encodes.of_cons areMarked with ⟨later, other, rfl, encodesLater⟩ |
          ⟨inner, character, passed, later, isEntity, rfl, same, rfl, encodesLater⟩ |
          ⟨later, bare, rfl, rfl, encodesLater⟩
        · exact .plain other (shorter tail (Nat.le_refl _) encodesLater)
        · -- What is behind the ampersand was there before the pass, which goes on behind it.
          have single : '&' ∉ inner := (areMarked _ isEntity).2
          have unrestored : first.2 ∉ inner := (survive _ isEntity).2.2.1
          rw [begins] at same
          obtain ⟨behind, rfl⟩ := isPrefix_of_replaced single unrestored ⟨passed, same.symm⟩
          rw [Text.replaceAll_run single, ← begins] at same
          rw [← List.append_cancel_left same] at encodesLater
          have less : behind.length ≤ (inner ++ behind).length := by
            rw [List.length_append]
            omega
          exact .entity (List.mem_cons_of_mem _ isEntity) (shorter behind less encodesLater)
        · refine .ampersand ?_ (shorter tail (Nat.le_refl _) encodesLater)
          intro other isOther starts
          rcases List.mem_cons.mp isOther with rfl | isLater
          · rw [List.isPrefixOf_iff_prefix.mpr starts] at occurs
            cases occurs
          · obtain ⟨inner, shape, single⟩ := (areMarked other isLater).shape
            refine bare other isLater ?_
            rw [shape, List.cons_prefix_cons] at starts ⊢
            rw [begins]
            exact ⟨rfl, isPrefix_replaced single starts.2⟩

theorem encodes_restored {table : List (Text × Char)} (areMarked : ∀ entity ∈ table, IsMarked entity)
    (survive : table.Pairwise Survives) (raw : Text) :
    Encodes table raw
      (table.foldl (fun decoded entity => Text.replaceAll entity.1 [entity.2] decoded) raw) := by
  induction table generalizing raw with
  | nil =>
    rw [List.foldl_nil]
    induction raw with
    | nil => exact .done
    | cons head tail ih =>
      by_cases isAmpersand : head = '&'
      · subst isAmpersand
        exact .ampersand (List.forall_mem_nil _) ih
      · exact .plain isAmpersand ih
  | cons first rest ih =>
    rw [List.forall_mem_cons] at areMarked
    rw [List.pairwise_cons] at survive
    exact Encodes.before_pass areMarked.1 areMarked.2 survive.1 raw (ih areMarked.2 survive.2 _)

abbrev IsEncoded : Text → Text → Prop :=
  Encodes entities

theorem decodeEntities_encoded {raw content : Text} (encoded : IsEncoded raw content) :
    decodeEntities raw = content :=
  encoded.restored (by decide) (by decide)

theorem isEncoded_decoded (raw : Text) : IsEncoded raw (decodeEntities raw) :=
  encodes_restored (by decide) (by decide) raw

section Spelled
variable {escapes : Char → Bool}

/-- Where the ampersand is spelled as an entity, it occurs in entities only. -/
theorem spelled_cases (ampersand : escapes '&' = true) (character : Char) :
    (spelled escapes character = [character] ∧ character ≠ '&') ∨
      (spelled escapes character, character) ∈ entities ∧ escapes character = true := by
  rw [spelled]
  split
  · rename_i escaped
    rcases entityText_cases character with isEntity | bare
    · exact Or.inr ⟨isEntity, escaped⟩
    · refine Or.inl ⟨bare, ?_⟩
      rintro rfl
      cases bare
  · rename_i kept
    refine Or.inl ⟨rfl, ?_⟩
    rintro rfl
    exact kept ampersand

theorem isEncoded_spelled (ampersand : escapes '&' = true) (text : Text) :
    IsEncoded (text.flatMap (spelled escapes)) text := by
  induction text with
  | nil => exact .done
  | cons character rest ih =>
    rw [List.flatMap_cons]
    rcases spelled_cases ampersand character with ⟨bare, other⟩ | ⟨isEntity, -⟩
    · rw [bare]
      exact .plain other ih
    · exact .entity isEntity ih

end Spelled

/-! ## What the encoders escape -/

theorem ampersands_eq_spelled (text : Text) :
    Text.replaceAll ['&'] "&amp;".toList text =
      text.flatMap (spelled fun character => character = '&') := by
  rw [Text.replaceAll_singleton]
  congr 1
  funext character
  by_cases isAmpersand : character = '&'
  · subst isAmpersand
    rfl
  · simp [spelled, isAmpersand]

/-- The ampersand first, and then another character. -/
theorem replaced_eq_spelled {entity : Text} {escaped : Char} (own : entityText escaped = entity)
    (outside : escaped ∉ "&amp;".toList) (text : Text) :
    Text.replaceAll [escaped] entity (Text.replaceAll ['&'] "&amp;".toList text) =
      text.flatMap (spelled fun character => character = '&' || character = escaped) := by
  have whole : Text.replaceAll [escaped] entity ("&amp;".toList ++ []) = "&amp;".toList ++ [] :=
    Text.replaceAll_run outside entity []
  rw [List.append_nil, Text.replaceAll_singleton] at whole
  rw [ampersands_eq_spelled, Text.replaceAll_singleton, List.flatMap_assoc]
  congr 1
  funext character
  by_cases isAmpersand : character = '&'
  · subst isAmpersand
    exact whole
  · by_cases isEscaped : character = escaped
    · subst isEscaped
      simp [spelled, isAmpersand, own]
    · simp [spelled, isAmpersand, isEscaped]

theorem escapeMarkup_eq_spelled (text : Text) :
    escapeMarkup text = text.flatMap (spelled fun character => character = '&' || character = '<') :=
  replaced_eq_spelled rfl (by decide) text

theorem quotes_eq_spelled (text : Text) :
    Text.replaceAll ['\x22'] "&quot;".toList (Text.replaceAll ['&'] "&amp;".toList text) =
      text.flatMap (spelled fun character => character = '&' || character = '\x22') :=
  replaced_eq_spelled rfl (by decide) text

/-- A character that stands in no entity is gone if it is spelled as one. -/
theorem not_mem_spelled {escapes : Char → Bool} (ampersand : escapes '&' = true) {escaped : Char}
    (outside : ∀ entity ∈ entities, escaped ∉ entity.1) (gone : escaped ∉ spelled escapes escaped)
    (text : Text) : escaped ∉ text.flatMap (spelled escapes) := by
  intro member
  obtain ⟨character, -, inside⟩ := List.mem_flatMap.mp member
  rcases spelled_cases ampersand character with ⟨bare, -⟩ | ⟨isEntity, -⟩
  · rw [bare, List.mem_singleton] at inside
    subst inside
    exact gone (bare ▸ List.mem_singleton_self escaped)
  · exact outside _ isEntity inside

/-- A value without placeholders is put between quotes that do not occur in it as it is written. -/
theorem quoted_of_unmarked (value : Text)
    (unmarked : Text.occurs placeholderOpening value = false) :
    ∃ quote escapes, (quote = '\x22' ∨ quote = '\x27') ∧ escapes '&' = true ∧
      (encodeInterpolatedValue value).text = quote :: (value.flatMap (spelled escapes) ++ [quote]) ∧
      quote ∉ value.flatMap (spelled escapes) := by
  rw [encodeInterpolatedValue, unmarked, if_neg Bool.false_ne_true]
  dsimp only
  split
  · rename_i single
    rw [Bool.and_eq_true, Bool.not_eq_true'] at single
    have inside : '\x27' ∉ Text.replaceAll ['&'] "&amp;".toList value := by
      intro member
      rw [List.contains_iff_mem.mpr member] at single
      cases single.2
    rw [ampersands_eq_spelled] at inside ⊢
    exact ⟨'\x27', _, Or.inr rfl, rfl, rfl, inside⟩
  · rw [quotes_eq_spelled]
    exact ⟨'\x22', _, Or.inl rfl, rfl, rfl, not_mem_spelled rfl (by decide) (by decide) value⟩

end TreeTemplate.Markup
