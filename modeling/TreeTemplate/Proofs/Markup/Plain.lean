import TreeTemplate.Proofs.Markup.Layout

/-!
# Plain forests

A plain forest has no properties, its names are names of markup, and nothing in its values and texts
asks for interpolation. As a compile writes it, a plain forest spells markup that declares the forest
again. The blanks before and behind a text belong to one run with it, and blanks between two elements
are a run of their own, so the forest is followed with the run that is still open.
-/
set_option autoImplicit false

namespace TreeTemplate.Markup

open Text

/-- A text that is kept apart from the blanks around it and is not taken for a placeholder. -/
structure IsPlainText (content : Text) : Prop where
  trimmed : IsTrimmed content
  unmarked : ¬placeholderOpening <+: content
  unescaped : ¬('\\' :: placeholderOpening) <+: content

structure IsPlainAttribute (pair : Text × Text) : Prop where
  isName : IsItemName pair.1
  literal : pair.1 ≠ interpolationItem
  unmarked : Text.occurs placeholderOpening pair.2 = false

/-- Each text stands between elements, or at an end of the forest. -/
inductive IsPlain : List Blueprint → Prop where
  | nothing : IsPlain []
  | text {content : Text} {rest : List Blueprint} (isPlain : IsPlainText content)
      (apart : ∀ other later, rest ≠ .text other :: later) (later : IsPlain rest) :
      IsPlain (.text content :: rest)
  | element {tag : Text} {attributes : Entries Text Text} {children rest : List Blueprint}
      (isName : IsTagName tag) (plain : ∀ pair ∈ attributes, IsPlainAttribute pair)
      (inside : IsPlain children) (later : IsPlain rest) :
      IsPlain (.element tag attributes [] children :: rest)

/-- The value of a plain attribute is written between quotes, so that it decodes to itself. -/
theorem assigns_value (value : Text) (unmarked : Text.occurs placeholderOpening value = false) :
    Assigns ('=' :: (encodeInterpolatedValue value).text) value := by
  obtain ⟨quote, escapes, isQuote, ampersand, written, inside⟩ := quoted_of_unmarked value unmarked
  have noSpaces : IsSpaces [] := fun _ impossible => by cases impossible
  rw [written]
  exact ⟨_, .quoted noSpaces noSpaces isQuote inside, isEncoded_spelled ampersand value⟩

theorem declaresItem_attribute {name value : Text} (plain : IsPlainAttribute (name, value)) :
    ∃ part, (writeAttribute true name value).text = ' ' :: part ∧
      DeclaresItem part (.setAttribute name value) := by
  rw [writeAttribute]
  split
  · rename_i isEmpty
    obtain rfl := List.isEmpty_iff.mp isEmpty
    exact ⟨name, rfl, .flag plain.isName plain.literal⟩
  · exact ⟨_, rfl, .setAttribute plain.isName plain.literal (assigns_value value plain.unmarked)⟩

theorem declaresItems_attributes (attributes : Entries Text Text)
    (plain : ∀ pair ∈ attributes, IsPlainAttribute pair) :
    DeclaresItems (writeAttributes true attributes).text
      (attributes.map fun pair => .setAttribute pair.1 pair.2) := by
  induction attributes with
  | nil => exact .none
  | cons pair rest ih =>
    rw [List.forall_mem_cons] at plain
    obtain ⟨part, shape, declares⟩ := declaresItem_attribute plain.1
    have space : IsSpaces [' '] := List.forall_mem_singleton.mpr rfl
    rw [writeAttributes]
    dsimp only
    rw [shape]
    exact .more space (List.cons_ne_nil _ _) declares (ih plain.2)

theorem encodeCharacterData_plain {content : Text} (isPlain : IsPlainText content) :
    encodeCharacterData content = escapeMarkup content := by
  unfold encodeCharacterData
  split
  · exact absurd ⟨_, rfl⟩ isPlain.unescaped
  · exact absurd ⟨_, rfl⟩ isPlain.unmarked
  · rfl

/-- A plain text with blanks around it is one run, as it is written. -/
theorem pending_plain {before content behind : Text} (blanksBefore : IsBlanks before)
    (isPlain : IsPlainText content) (blanksBehind : IsBlanks behind) :
    Pending (before ++ (escapeMarkup content ++ behind)) [.text content] := by
  rw [escapeMarkup_eq_spelled]
  exact .text blanksBefore (isEncoded_spelled rfl content)
    (not_mem_spelled rfl (by decide) (by decide) content) isPlain.trimmed blanksBehind

structure Describes (declared : List Declared) (forest : List Blueprint) : Prop where
  blueprints : Declared.blueprints declared = forest
  undirected : ∀ id, Declared.directivesOfAll id declared = []

theorem describes_nil : Describes [] [] :=
  ⟨rfl, fun _ => rfl⟩

theorem describes_text {declared : List Declared} {forest : List Blueprint}
    (describes : Describes declared forest) (content : Text) :
    Describes (.text content :: declared) (.text content :: forest) where
  blueprints := by rw [Declared.blueprints, Declared.blueprint, describes.blueprints]
  undirected id := by
    rw [Declared.directivesOfAll, Declared.directives, describes.undirected]
    rfl

theorem describes_element {inner later : List Declared} {children rest : List Blueprint}
    (tag : Text) (attributes : Entries Text Text) (inside : Describes inner children)
    (behind : Describes later rest) :
    Describes
      (.element tag (attributes.map fun pair => .setAttribute pair.1 pair.2) inner :: later)
      (.element tag attributes [] children :: rest) where
  blueprints := by
    have kept : (attributes.map fun pair => Declaration.setAttribute pair.1 pair.2).filterMap
        Declaration.attribute? = attributes := by
      rw [List.filterMap_map]
      exact List.filterMap_some
    have dropped : (attributes.map fun pair => Declaration.setAttribute pair.1 pair.2).filterMap
        Declaration.property? = [] := by
      rw [List.filterMap_map]
      exact List.filterMap_eq_nil_iff.mpr fun _ _ => rfl
    rw [Declared.blueprints, Declared.blueprint, inside.blueprints, behind.blueprints, kept, dropped]
  undirected id := by
    have dropped : (attributes.map fun pair => Declaration.setAttribute pair.1 pair.2).filterMap
        Declaration.directive? = [] := by
      rw [List.filterMap_map]
      exact List.filterMap_eq_nil_iff.mpr fun _ _ => rfl
    rw [Declared.directivesOfAll, Declared.directives, inside.undirected, behind.undirected, dropped]
    rfl

mutual

def written (depth : Nat) : Blueprint → Text
  | .text content => padding depth ++ encodeCharacterData content
  | .element tag attributes _ children =>
    padding depth ++ '<' :: (tag ++ ((writeAttributes true attributes).text ++
      '>' :: (writtenAll (depth + 1) children ++
        ((if children.isEmpty then [] else padding depth) ++ '<' :: '/' :: (tag ++ ['>'])))))

def writtenAll (depth : Nat) : List Blueprint → Text
  | [] => []
  | first :: rest => written depth first ++ writtenAll depth rest

end

theorem isBlanks_padding (depth : Nat) : IsBlanks (padding depth) := by
  rw [padding]
  refine List.forall_mem_cons.mpr ⟨rfl, ?_⟩
  intro character member
  rw [List.eq_of_mem_replicate member]
  rfl

theorem declares_element {tag : Text} {attributes : Entries Text Text} {inner later : List Declared}
    {body rest : Text} (isName : IsTagName tag)
    (plain : ∀ pair ∈ attributes, IsPlainAttribute pair) (inside : Declares body inner)
    (behind : Declares rest later) :
    Declares ('<' :: (tag ++ ((writeAttributes true attributes).text ++
        '>' :: (body ++ '<' :: '/' :: (tag ++ '>' :: rest)))))
      (.element tag (attributes.map fun pair => .setAttribute pair.1 pair.2) inner :: later) := by
  have noSpaces : IsSpaces [] := List.forall_mem_nil _
  exact declares_paired isName (declaresItems_attributes attributes plain) noSpaces inside noSpaces
    behind

theorem declares_writtenAll {forest : List Blueprint} (plain : IsPlain forest) (depth : Nat)
    {run behind : Text} {first : List Declared} (pending : Pending run first)
    (blanks : IsBlanks behind)
    (apart : ∀ content rest, forest = .text content :: rest → first = []) :
    ∃ later, Describes later forest ∧
      Declares (run ++ (writtenAll depth forest ++ behind)) (first ++ later) := by
  -- All that stands before a tag is one text of the spelling, so that the run carries a text and the
  -- padding around it over to the tag that ends them.
  induction plain generalizing depth run behind first with
  | nothing =>
    refine ⟨[], describes_nil, ?_⟩
    rw [List.append_nil]
    exact declares_pending (pending.append blanks)
  | @text content rest isPlain separate _ ih =>
    obtain rfl := apart content rest rfl
    cases pending with
    | blank blanksBefore =>
      have text := pending_plain (isBlanks_append blanksBefore (isBlanks_padding depth)) isPlain
        (List.forall_mem_nil _)
      obtain ⟨later, describes, reads⟩ := ih depth text blanks
        (fun other others same => absurd same (separate other others))
      refine ⟨.text content :: later, describes_text describes content, ?_⟩
      rw [writtenAll, written, encodeCharacterData_plain isPlain]
      simp only [List.append_assoc, List.nil_append, List.append_nil] at reads ⊢
      exact reads
  | @element tag attributes children rest isName plain _ _ ihInside ihLater =>
    have enclosing : IsBlanks (if children.isEmpty then [] else padding depth) := by
      split
      · exact List.forall_mem_nil _
      · exact isBlanks_padding depth
    have nothing : Pending [] [] := .blank (List.forall_mem_nil _)
    obtain ⟨inner, describesInner, readsInner⟩ :=
      ihInside (depth + 1) nothing enclosing (fun _ _ _ => rfl)
    obtain ⟨later, describesLater, readsLater⟩ := ihLater depth nothing blanks (fun _ _ _ => rfl)
    refine ⟨_, describes_element tag attributes describesInner describesLater, ?_⟩
    have element := declares_element isName plain readsInner readsLater
    have whole := element.behind (pending.append (isBlanks_padding depth)) (endsBefore_cons rfl)
    rw [writtenAll, written]
    simp only [List.append_assoc, List.cons_append, List.nil_append] at whole ⊢
    exact whole

end TreeTemplate.Markup
