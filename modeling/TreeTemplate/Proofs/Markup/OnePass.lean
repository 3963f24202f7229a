import Mathlib.Data.List.Forall2
import TreeTemplate.Proofs.Markup.Decoding

/-!
# Decoding in one pass

The decoder replaces one kind of entity after the other, so that a pass could meet what an earlier
one has left. It does not matter: after any number of passes the text is what a single pass from left
to right makes of the source, which looks at every character once. A text that was spelled character
by character, each ampersand as its entity, is read back.
-/
set_option autoImplicit false

namespace TreeTemplate.Markup

def leadingEntity? (table : List (Text × Char)) (text : Text) : Option (Text × Char) :=
  table.find? fun entity => entity.1.isPrefixOf text

/-- The text with each entity of the table replaced in one pass from left to right. What is put in
the place of an entity is not read again. The number counts the characters of the last entity that
are still to be passed over. -/
def decodeFrom (table : List (Text × Char)) : Nat → Text → Text
  | _, [] => []
  | skipped + 1, _ :: rest => decodeFrom table skipped rest
  | 0, head :: rest =>
    match leadingEntity? table (head :: rest) with
    | some entity => entity.2 :: decodeFrom table (entity.1.length - 1) rest
    | none => head :: decodeFrom table 0 rest

def decodeOnce (table : List (Text × Char)) (text : Text) : Text :=
  decodeFrom table 0 text

def decodePasses (table : List (Text × Char)) (text : Text) : Text :=
  table.foldl (fun decoded entity => Text.replaceAll entity.1 [entity.2] decoded) text

/-- A character as it may be spelled: as its entity, or as itself unless it is an ampersand. -/
def IsSpelling (piece : Text) (character : Char) : Prop :=
  (piece, character) ∈ entities ∨ (piece = [character] ∧ character ≠ '&')

instance decidableIsSpelling (piece : Text) (character : Char) :
    Decidable (IsSpelling piece character) :=
  inferInstanceAs (Decidable (_ ∨ _))

section Tables
variable {table : List (Text × Char)}

theorem decodeFrom_skip (passed rest : Text) :
    decodeFrom table passed.length (passed ++ rest) = decodeOnce table rest := by
  induction passed with
  | nil => rfl
  | cons first others ih => exact ih

theorem decodeOnce_kept {head : Char} {rest : Text}
    (absent : ∀ entity ∈ table, ¬entity.1 <+: head :: rest) :
    decodeOnce table (head :: rest) = head :: decodeOnce table rest := by
  have none : leadingEntity? table (head :: rest) = none := by
    refine List.find?_eq_none.mpr ?_
    intro entity member
    rw [List.isPrefixOf_iff_prefix]
    exact absent entity member
  rw [decodeOnce, decodeFrom, none]
  rfl

/-- No other entity of the table begins where one of them stands. -/
theorem leadingEntity?_of_mem (survive : table.Pairwise Survives) {entity : Text × Char}
    (isEntity : entity ∈ table) (behind : Text) :
    leadingEntity? table (entity.1 ++ behind) = some entity := by
  induction table with
  | nil => cases isEntity
  | cons first rest ih =>
    obtain ⟨survives, surviveRest⟩ := List.pairwise_cons.mp survive
    rcases List.mem_cons.mp isEntity with rfl | later
    · exact List.find?_cons_of_pos (List.isPrefixOf_iff_prefix.mpr (List.prefix_append _ _))
    · have apart := (survives entity later).apart behind
      rw [leadingEntity?, List.find?_cons_of_neg (by simp [apart])]
      exact ih surviveRest later

theorem decodeOnce_entity (areMarked : ∀ entity ∈ table, IsMarked entity)
    (survive : table.Pairwise Survives) {entity : Text × Char} (isEntity : entity ∈ table)
    (behind : Text) :
    decodeOnce table (entity.1 ++ behind) = entity.2 :: decodeOnce table behind := by
  have leads := leadingEntity?_of_mem survive isEntity behind
  obtain ⟨body, shape, -⟩ := (areMarked entity isEntity).shape
  have passed : entity.1.length - 1 = body.length := by simp [shape]
  rw [shape, List.cons_append] at leads ⊢
  rw [decodeOnce, decodeFrom, leads]
  dsimp only
  rw [passed, decodeFrom_skip]

/-- A single pass reads back whatever is written with the entities of the table. -/
theorem Encodes.decodeOnce (areMarked : ∀ entity ∈ table, IsMarked entity)
    (survive : table.Pairwise Survives) {raw content : Text} (encodes : Encodes table raw content) :
    decodeOnce table raw = content := by
  induction encodes with
  | done => rfl
  | @plain character raw content other later ih =>
    have absent : ∀ entity ∈ table, ¬entity.1 <+: character :: raw := by
      intro entity member starts
      obtain ⟨body, shape, -⟩ := (areMarked entity member).shape
      rw [shape] at starts
      exact other (List.cons_prefix_cons.mp starts).1.symm
    rw [decodeOnce_kept absent, ih]
  | entity isEntity later ih =>
    exact (decodeOnce_entity areMarked survive isEntity _).trans (congrArg _ ih)
  | ampersand bare later ih => rw [decodeOnce_kept bare, ih]

/-- Passes that leave each other's entities alone come to a single pass. -/
theorem decodePasses_eq_decodeOnce (areMarked : ∀ entity ∈ table, IsMarked entity)
    (survive : table.Pairwise Survives) (text : Text) :
    decodePasses table text = decodeOnce table text :=
  ((encodes_restored areMarked survive text).decodeOnce areMarked survive).symm

end Tables

theorem isEncoded_pieces {pieces : List Text} {text : Text}
    (spelling : List.Forall₂ IsSpelling pieces text) : IsEncoded pieces.flatten text := by
  induction spelling with
  | nil => exact .done
  | @cons piece character pieces text first later ih =>
    rw [List.flatten_cons]
    rcases first with isEntity | ⟨rfl, other⟩
    · exact .entity isEntity ih
    · exact .plain other ih

/-- However many of its passes the decoder has made, the text is what one pass for their entities
makes of the source: no pass brings about an entity or does away with one. With all of them it reads
back every text that is spelled with its ampersands as entities. -/
theorem entities_decoded_in_one_pass :
    (∀ text, decodeEntities text = decodeOnce entities text) ∧
      (∀ count text, decodePasses (entities.take count) text =
        decodeOnce (entities.take count) text) ∧
      ∀ pieces text, List.Forall₂ IsSpelling pieces text →
        decodeEntities pieces.flatten = text := by
  have areMarked : ∀ entity ∈ entities, IsMarked entity := by decide
  have survive : entities.Pairwise Survives := by decide
  refine ⟨decodePasses_eq_decodeOnce areMarked survive, ?_, ?_⟩
  · intro count text
    have taken : (entities.take count).Sublist entities := List.take_sublist count entities
    refine decodePasses_eq_decodeOnce ?_ (survive.sublist taken) text
    intro entity member
    exact areMarked entity (taken.subset member)
  · intro pieces text spelling
    exact decodeEntities_encoded (isEncoded_pieces spelling)

/-- The characters of an entity, the ampersand and the first quote spelled as entities. -/
theorem spelled_entity_read_back :
    List.Forall₂ IsSpelling
        ["&amp;".toList, ['l'], ['t'], [';'], "&quot;".toList, ['\x22'], "&amp;".toList]
        "&lt;\x22\x22&".toList ∧
      decodeEntities "&amp;lt;&quot;\x22&amp;".toList = "&lt;\x22\x22&".toList := by
  have spelling : List.Forall₂ IsSpelling
      ["&amp;".toList, ['l'], ['t'], [';'], "&quot;".toList, ['\x22'], "&amp;".toList]
      "&lt;\x22\x22&".toList := by
    decide
  exact ⟨spelling, entities_decoded_in_one_pass.2.2 _ _ spelling⟩

end TreeTemplate.Markup
