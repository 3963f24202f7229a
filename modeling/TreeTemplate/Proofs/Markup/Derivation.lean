import TreeTemplate.Proofs.Markup.Grammar
import TreeTemplate.Proofs.Markup.Spelling

/-!
# Spelling what can be derived

What the grammar derives for a part of markup is a spelling of that part. Texts that follow each
other in a derivation make one text of the spelling, since a text is read up to the next tag.
-/
set_option autoImplicit false

namespace TreeTemplate.Markup

open Text Pattern

theorem derives_chain {first second : Pattern} {part : Text}
    (derives : Derives (.chain first second) part) :
    ∃ front back, part = front ++ back ∧ Derives first front ∧ Derives second back := by
  cases derives with
  | chain before behind => exact ⟨_, _, rfl, before, behind⟩

theorem derives_either {first second : Pattern} {part : Text}
    (derives : Derives (.either first second) part) : Derives first part ∨ Derives second part := by
  cases derives with
  | left inside => exact Or.inl inside
  | right inside => exact Or.inr inside

theorem derives_rule {name : Rule} {part : Text} (derives : Derives (.rule name) part) :
    Derives name.pattern part := by
  cases derives with
  | rule inside => exact inside

theorem derives_one {inClass : Char → Bool} {part : Text} (derives : Derives (.one inClass) part) :
    ∃ character, part = [character] ∧ inClass character = true := by
  cases derives with
  | one isIn => exact ⟨_, rfl, isIn⟩

theorem derives_exactly {character : Char} {part : Text} (derives : Derives (exactly character) part) :
    part = [character] := by
  obtain ⟨other, rfl, isIn⟩ := derives_one derives
  rw [of_decide_eq_true isIn]

@[elab_as_elim]
theorem derives_many {repeated : Pattern} {motive : Text → Prop} {part : Text}
    (derives : Derives (.many repeated) part) (stop : motive [])
    (more : ∀ front back, Derives repeated front → Derives (.many repeated) back → motive back →
      motive (front ++ back)) : motive part := by
  generalize shape : Pattern.many repeated = pattern at derives
  induction derives with
  | stop => exact stop
  | more before behind _ ih =>
    cases shape
    exact more _ _ before behind (ih rfl)
  | nothing | finish | one | rule | chain | left | right => cases shape

theorem derives_run {repeated : Pattern} {inClass : Char → Bool} {part : Text}
    (single : ∀ part, Derives repeated part → Derives (.one inClass) part)
    (derives : Derives (.many repeated) part) :
    ∀ character ∈ part, inClass character = true := by
  refine derives_many derives ?_ ?_
  · intro character member
    cases member
  · intro front back before _ ih
    obtain ⟨first, rfl, isIn⟩ := derives_one (single front before)
    exact List.forall_mem_cons.mpr ⟨isIn, ih⟩

theorem isSpaces_of_derives {part : Text} (derives : Derives spaces part) : IsSpaces part :=
  derives_run (fun _ => derives_rule) derives

theorem isName_of_derives {starts continues : Char → Bool} {part : Text}
    (derives : Derives (.chain (.one starts) (.many (.one continues))) part) :
    IsName starts continues part := by
  obtain ⟨front, back, rfl, before, behind⟩ := derives_chain derives
  obtain ⟨first, rfl, start⟩ := derives_one before
  exact ⟨first, back, rfl, start, derives_run (fun _ => id) behind⟩

theorem quoted_of_derives {name : Rule} {quote : Char} {part : Text}
    (body : name.pattern = .many (except quote))
    (derives : Derives (.chain (exactly quote) (.chain (.rule name) (exactly quote))) part) :
    ∃ value, part = quote :: (value ++ [quote]) ∧ quote ∉ value := by
  obtain ⟨opening, others, rfl, first, inside⟩ := derives_chain derives
  obtain ⟨value, closing, rfl, middle, last⟩ := derives_chain inside
  rw [derives_exactly first, derives_exactly last]
  have run := derives_rule middle
  rw [body] at run
  refine ⟨value, rfl, ?_⟩
  intro member
  exact of_decide_eq_true (derives_run (fun _ => id) run quote member) rfl

theorem isAssignment_of_derives {part : Text} (derives : Derives assigned part) :
    ∃ value, IsAssignment part value := by
  obtain ⟨leading, others, rfl, before, afterLeading⟩ := derives_chain derives
  obtain ⟨equals, afterEquals, rfl, sign, behind⟩ := derives_chain afterLeading
  obtain ⟨trailing, quoted, rfl, gap, valued⟩ := derives_chain behind
  rw [derives_exactly sign]
  rcases derives_either (derives_rule valued) with double | single
  · obtain ⟨value, rfl, inside⟩ := quoted_of_derives rfl double
    exact ⟨value, .quoted (isSpaces_of_derives before) (isSpaces_of_derives gap) (Or.inl rfl) inside⟩
  · obtain ⟨value, rfl, inside⟩ := quoted_of_derives rfl single
    exact ⟨value, .quoted (isSpaces_of_derives before) (isSpaces_of_derives gap) (Or.inr rfl) inside⟩

theorem sigil_of_derives {part : Text} (derives : Derives (optional (.rule .attributePrefix)) part) :
    ∃ sigil : Sigil, part = sigil.text := by
  rcases derives_either derives with marked | bare
  · rcases derives_either (derives_rule marked) with both | marked
    · obtain ⟨front, back, rfl, colon, dot⟩ := derives_chain both
      exact ⟨.bindProperty, by rw [derives_exactly colon, derives_exactly dot]; rfl⟩
    · rcases derives_either marked with colon | marked
      · exact ⟨.bindAttribute, derives_exactly colon⟩
      · rcases derives_either marked with atSign | dot
        · exact ⟨.listen, derives_exactly atSign⟩
        · exact ⟨.setProperty, derives_exactly dot⟩
  · cases bare
    exact ⟨.bare, rfl⟩

theorem isItem_of_derives {part : Text} (derives : Derives (.rule .attribute) part) :
    ∃ item, IsItem part item := by
  obtain ⟨mark, others, rfl, marked, behind⟩ := derives_chain (derives_rule derives)
  obtain ⟨name, value, rfl, named, valued⟩ := derives_chain behind
  obtain ⟨sigil, rfl⟩ := sigil_of_derives marked
  have isName : IsItemName name := isName_of_derives (derives_rule named)
  rcases derives_either valued with assigned | bare
  · obtain ⟨content, assigns⟩ := isAssignment_of_derives assigned
    exact ⟨_, .assigned sigil isName assigns⟩
  · cases bare
    rw [List.append_nil]
    exact ⟨_, .flag sigil isName⟩

theorem areItems_of_derives {part : Text} (derives : Derives attributes part) :
    ∃ items, AreItems part items := by
  refine derives_many derives ⟨[], .none⟩ ?_
  intro front back before _ later
  obtain ⟨items, areItems⟩ := later
  obtain ⟨gap, written, rfl, spaced, declared⟩ := derives_chain before
  obtain ⟨first, others, rfl, space, spaces⟩ := derives_chain spaced
  obtain ⟨item, isItem⟩ := isItem_of_derives declared
  obtain ⟨character, rfl, isIn⟩ := derives_one (derives_rule space)
  have gapSpaces : IsSpaces ([character] ++ others) :=
    List.forall_mem_cons.mpr ⟨isIn, isSpaces_of_derives spaces⟩
  rw [List.append_assoc]
  exact ⟨item :: items, .more gapSpaces (List.cons_ne_nil _ _) isItem areItems⟩

theorem isEndTag_of_derives {part : Text} (derives : Derives (.rule .closeTag) part) :
    ∃ ending closing, part = '<' :: '/' :: ending ∧ IsEndTag ending closing := by
  obtain ⟨bracket, others, rfl, first, behind⟩ := derives_chain (derives_rule derives)
  obtain ⟨slash, ending, rfl, second, closed⟩ := derives_chain behind
  obtain ⟨tag, tail, rfl, named, gapped⟩ := derives_chain closed
  obtain ⟨gap, last, rfl, isGap, bracketed⟩ := derives_chain gapped
  rw [derives_exactly first, derives_exactly second, derives_exactly bracketed]
  exact ⟨_, tag, rfl, .spelled (isName_of_derives (derives_rule named)) (isSpaces_of_derives isGap)⟩

/-- An element closes itself, or is a start tag, markup, and an end tag. -/
theorem tags_of_derives {part : Text} (derives : Derives (.rule .element) part) :
    (∃ start tag items, part = '<' :: start ∧ IsStartTag start ⟨tag, items, true⟩) ∨
      ∃ start tag items body ending closing,
        part = '<' :: (start ++ (body ++ '<' :: '/' :: ending)) ∧
          IsStartTag start ⟨tag, items, false⟩ ∧ Derives (.many (.rule .node)) body ∧
            IsEndTag ending closing := by
  obtain ⟨bracket, others, rfl, first, behind⟩ := derives_chain (derives_rule derives)
  obtain ⟨tag, afterTag, rfl, named, behindTag⟩ := derives_chain behind
  obtain ⟨written, afterItems, rfl, declared, behindItems⟩ := derives_chain behindTag
  obtain ⟨gap, ending, rfl, gapped, ended⟩ := derives_chain behindItems
  obtain ⟨items, areItems⟩ := areItems_of_derives declared
  have isName : IsTagName tag := isName_of_derives (derives_rule named)
  have spaces := isSpaces_of_derives gapped
  rw [derives_exactly first]
  rcases derives_either ended with closes | encloses
  · obtain ⟨slash, last, rfl, isSlash, isLast⟩ := derives_chain (derives_rule closes)
    rw [derives_exactly isSlash, derives_exactly isLast]
    exact Or.inl ⟨_, tag, items, rfl, .spelled isName areItems (.closing spaces)⟩
  · obtain ⟨opening, inside, rfl, isOpening, enclosed⟩ := derives_chain encloses
    obtain ⟨body, tail, rfl, nodes, closed⟩ := derives_chain enclosed
    obtain ⟨ending, closing, rfl, isEnd⟩ := isEndTag_of_derives closed
    rw [derives_exactly isOpening]
    refine Or.inr ⟨tag ++ (written ++ (gap ++ ['>'])), tag, items, body, ending, closing, ?_,
      .spelled isName areItems (.opening spaces), nodes, isEnd⟩
    simp

theorem text_of_derives {part : Text} (derives : Derives (.rule .text) part) :
    part ≠ [] ∧ ∀ character ∈ part, decide (character ≠ '<') = true := by
  obtain ⟨front, back, rfl, before, behind⟩ := derives_chain (derives_rule derives)
  obtain ⟨first, rfl, isIn⟩ := derives_one before
  refine ⟨List.cons_ne_nil _ _, ?_⟩
  exact List.forall_mem_cons.mpr ⟨isIn, derives_run (fun _ => id) behind⟩

theorem derives_behind_text {part : Text} (derives : Derives (.many (.rule .node)) part) :
    Derives (.many (.rule .node)) (part.dropWhile fun character => character ≠ '<') := by
  refine derives_many derives .stop ?_
  intro front back before behind ih
  rcases derives_either (derives_rule before) with element | text
  · have starts : ∃ others, front = '<' :: others := by
      rcases tags_of_derives element with ⟨_, _, _, rfl, _⟩ | ⟨_, _, _, _, _, _, rfl, _⟩
      · exact ⟨_, rfl⟩
      · exact ⟨_, rfl⟩
    obtain ⟨others, rfl⟩ := starts
    exact .more before behind
  · rw [List.dropWhile_append_of_pos (text_of_derives text).2]
    exact ih

/-- Whatever can be derived can be spelled: texts that follow each other make one text. -/
theorem exists_spelling (part : Text) (derives : Derives (.many (.rule .node)) part) :
    ∃ trees, Spells part trees := by
  -- The induction is on the length: a text takes the start of the nodes behind it along, and what is
  -- left of them is shorter, but no part of the derivation.
  induction length : part.length using Nat.strongRecOn generalizing part with
  | ind bound ih =>
    subst length
    have shorter (other : Text) (less : other.length < part.length)
        (derives : Derives (.many (.rule .node)) other) : ∃ trees, Spells other trees :=
      ih other.length less other derives rfl
    cases derives with
    | stop => exact ⟨[], .nothing⟩
    | @more _ front back before behind =>
      rcases derives_either (derives_rule before) with element | text
      · rcases tags_of_derives element with
          ⟨start, tag, items, rfl, isStart⟩ |
          ⟨start, tag, items, body, ending, closing, rfl, isStart, inside, isEnd⟩
        · simp only [List.length_cons, List.length_append] at shorter
          obtain ⟨trees, later⟩ := shorter back (by omega) behind
          exact ⟨_, .void isStart later⟩
        · simp only [List.length_cons, List.length_append] at shorter
          obtain ⟨children, inner⟩ := shorter body (by omega) inside
          obtain ⟨trees, later⟩ := shorter back (by omega) behind
          have spells := Spells.paired isStart inner isEnd later
          simp only [List.cons_append, List.append_assoc]
          exact ⟨_, spells⟩
      · obtain ⟨filled, inside⟩ := text_of_derives text
        have behindText := derives_behind_text behind
        have length := (List.dropWhile_sublist (fun character => decide (character ≠ '<'))
          (l := back)).length_le
        have positive := List.length_pos_iff.mpr filled
        obtain ⟨trees, later⟩ := shorter _ (by rw [List.length_append]; omega) behindText
        have run : '<' ∉ front ++ back.takeWhile fun character => character ≠ '<' := by
          intro member
          rcases List.mem_append.mp member with inFront | inRun
          · exact of_decide_eq_true (inside _ inFront) rfl
          · have inClass := List.all_eq_true.mp List.all_takeWhile _ inRun
            exact of_decide_eq_true inClass rfl
        have spells := Spells.text (List.append_ne_nil_of_left_ne_nil filled _) run
          (endsBefore_dropWhile back) later
        rw [List.append_assoc, List.takeWhile_append_dropWhile] at spells
        exact ⟨_, spells⟩

end TreeTemplate.Markup
