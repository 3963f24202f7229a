import TreeTemplate.Markup.Reader
import TreeTemplate.Proofs.Text.Runs

/-!
# Spellings

How the parts of markup can be spelled, and that the reader gets them back whatever stands behind
them. A run of characters of a class is read to its end if the class ends there, so each part says
what it needs of the text behind it.
-/
set_option autoImplicit false

namespace TreeTemplate.Markup

open Text

def IsSpaces (run : Text) : Prop :=
  ∀ character ∈ run, isSpace character = true

def IsName (starts continues : Char → Bool) (name : Text) : Prop :=
  ∃ first others, name = first :: others ∧ starts first = true ∧
    ∀ character ∈ others, continues character = true

theorem isName_of_all {starts continues : Char → Bool} {first : Char} {others : Text}
    (start : starts first = true) (inside : others.all continues = true) :
    IsName starts continues (first :: others) :=
  ⟨first, others, rfl, start, List.all_eq_true.mp inside⟩

def IsTagName : Text → Prop :=
  IsName startsTagName continuesTagName

def IsItemName : Text → Prop :=
  IsName startsItemName continuesItemName

theorem readName?_name {starts continues : Char → Bool} {name rest : Text}
    (isName : IsName starts continues name) (ends : EndsBefore continues rest) :
    readName? starts continues (name ++ rest) = some (name, rest) := by
  obtain ⟨first, others, rfl, start, inside⟩ := isName
  rw [List.cons_append, readName?, if_pos start, takeWhile_run inside ends,
    dropWhile_run inside ends]

theorem continuesTagName_space {character : Char} (space : isSpace character = true) :
    continuesTagName character = false := by
  simp only [isSpace, Bool.or_eq_true, decide_eq_true_eq] at space
  rcases space with ((rfl | rfl) | rfl) | rfl <;> rfl

theorem continuesItemName_space {character : Char} (space : isSpace character = true) :
    continuesItemName character = false := by
  simp only [isSpace, Bool.or_eq_true, decide_eq_true_eq] at space
  rcases space with ((rfl | rfl) | rfl) | rfl <;> rfl

/-- The characters that can stand at the start of an item, as far as others are concerned. -/
theorem startsItemName_apart {character : Char} (starts : startsItemName character = true) :
    isSpace character = false ∧ character ≠ '=' ∧ character ≠ ':' ∧ character ≠ '@' ∧
      character ≠ '.' := by
  refine ⟨?_, ?_, ?_, ?_, ?_⟩
  · cases space : isSpace character with
    | false => rfl
    | true =>
      simp only [isSpace, Bool.or_eq_true, decide_eq_true_eq] at space
      rcases space with ((rfl | rfl) | rfl) | rfl <;> cases starts
  all_goals
    rintro rfl
    cases starts

/-- What stands between the name of an item and its end, and the value that it gives the item. -/
inductive IsAssignment : Text → Text → Prop where
  | quoted {leading trailing value : Text} {quote : Char} (before : IsSpaces leading)
      (behind : IsSpaces trailing) (isQuote : quote = '\x22' ∨ quote = '\x27')
      (inside : quote ∉ value) :
      IsAssignment (leading ++ '=' :: (trailing ++ quote :: (value ++ [quote]))) value

theorem readQuoted?_value {quote : Char} {value : Text} (rest : Text) (inside : quote ∉ value) :
    readQuoted? quote (value ++ quote :: rest) = some (value, rest) := by
  have run : ∀ character ∈ value, (decide (character ≠ quote)) = true := by
    intro character member
    rw [decide_eq_true_iff]
    rintro rfl
    exact inside member
  have ends : EndsBefore (fun character => decide (character ≠ quote)) (quote :: rest) :=
    endsBefore_cons (by simp)
  rw [readQuoted?, dropWhile_run run ends, takeWhile_run run ends]

theorem readValue?_assignment {part value : Text} (assigns : IsAssignment part value)
    (rest : Text) : readValue? (part ++ rest) = some (value, rest) := by
  cases assigns with
  | @quoted leading trailing value quote before behind isQuote inside =>
    have equals (text : Text) : (leading ++ '=' :: text).dropWhile isSpace = '=' :: text :=
      dropWhile_run before (endsBefore_cons rfl)
    have opened (text : Text) : (trailing ++ quote :: text).dropWhile isSpace = quote :: text := by
      refine dropWhile_run behind (endsBefore_cons ?_)
      rcases isQuote with rfl | rfl <;> rfl
    simp only [List.append_assoc, List.cons_append, List.nil_append]
    rw [readValue?]
    rcases isQuote with rfl | rfl
    · simp only [equals, opened, readQuoted?_value rest inside]
    · simp only [equals, opened, readQuoted?_value rest inside]

theorem readValue?_none {text : Text}
    (unassigned : (text.dropWhile isSpace).head? ≠ some '=') : readValue? text = none := by
  rw [readValue?]
  split
  · rename_i found
    rw [found] at unassigned
    exact absurd rfl unassigned
  · rfl

inductive IsItem : Text → Item → Prop where
  | flag {name : Text} (sigil : Sigil) (isName : IsItemName name) :
      IsItem (sigil.text ++ name) ⟨sigil, name, none⟩
  | assigned {name assignment value : Text} (sigil : Sigil) (isName : IsItemName name)
      (assigns : IsAssignment assignment value) :
      IsItem (sigil.text ++ (name ++ assignment)) ⟨sigil, name, some value⟩

/-- What an item needs of the text behind it: its name ends there, and gets no value. -/
structure BehindItem (rest : Text) : Prop where
  ends : EndsBefore continuesItemName rest
  unassigned : (rest.dropWhile isSpace).head? ≠ some '='

theorem readSigil_name (sigil : Sigil) {name : Text} (isName : IsItemName name) (rest : Text) :
    readSigil (sigil.text ++ (name ++ rest)) = (sigil, name ++ rest) := by
  obtain ⟨first, others, rfl, starts, inside⟩ := isName
  obtain ⟨-, -, colon, atSign, dot⟩ := startsItemName_apart starts
  cases sigil with
  | bare =>
    unfold readSigil
    split
    · rename_i same
      exact absurd (List.cons.inj same).1 colon
    · rename_i same
      exact absurd (List.cons.inj same).1 colon
    · rename_i same
      exact absurd (List.cons.inj same).1 atSign
    · rename_i same
      exact absurd (List.cons.inj same).1 dot
    · rfl
  | bindAttribute =>
    change readSigil (':' :: first :: (others ++ rest)) = _
    unfold readSigil
    split
    · rename_i same
      exact absurd (List.cons.inj (List.cons.inj same).2).1 dot
    · rename_i same
      rw [← (List.cons.inj same).2]
      rfl
    · rename_i same
      cases (List.cons.inj same).1
    · rename_i same
      cases (List.cons.inj same).1
    · rename_i other _ _
      exact absurd rfl (other _)
  | bindProperty => rfl
  | listen => rfl
  | setProperty => rfl

theorem endsBefore_assignment {part value : Text} (assigns : IsAssignment part value)
    (rest : Text) : EndsBefore continuesItemName (part ++ rest) := by
  cases assigns with
  | @quoted leading trailing value quote before behind isQuote inside =>
    cases leading with
    | nil => exact endsBefore_cons rfl
    | cons first others =>
      exact endsBefore_cons (continuesItemName_space (before first List.mem_cons_self))

theorem readItem?_item {part rest : Text} {item : Item} (isItem : IsItem part item)
    (behind : BehindItem rest) : readItem? (part ++ rest) = some (item, rest) := by
  cases isItem with
  | flag sigil isName =>
    rw [List.append_assoc, readItem?, readSigil_name sigil isName]
    dsimp only
    rw [readName?_name isName behind.ends]
    dsimp only
    rw [readValue?_none behind.unassigned]
  | assigned sigil isName assigns =>
    rw [List.append_assoc, List.append_assoc, readItem?, readSigil_name sigil isName]
    dsimp only
    rw [readName?_name isName (endsBefore_assignment assigns rest)]
    dsimp only
    rw [readValue?_assignment assigns]

theorem IsItem.head {part : Text} {item : Item} (isItem : IsItem part item) :
    ∃ first others, part = first :: others ∧ isSpace first = false ∧ first ≠ '=' := by
  have bySigil (sigil : Sigil) (name behind : Text) (isName : IsItemName name) :
      ∃ first others, sigil.text ++ (name ++ behind) = first :: others ∧ isSpace first = false ∧
        first ≠ '=' := by
    obtain ⟨first, others, rfl, starts, -⟩ := isName
    obtain ⟨space, equals, -⟩ := startsItemName_apart starts
    cases sigil with
    | bare => exact ⟨first, _, rfl, space, equals⟩
    | bindAttribute => exact ⟨':', _, rfl, rfl, by decide⟩
    | bindProperty => exact ⟨':', _, rfl, rfl, by decide⟩
    | listen => exact ⟨'@', _, rfl, rfl, by decide⟩
    | setProperty => exact ⟨'.', _, rfl, rfl, by decide⟩
  cases isItem with
  | @flag name sigil isName =>
    have found := bySigil sigil name [] isName
    rwa [List.append_nil] at found
  | @assigned name assignment value sigil isName assigns =>
    exact bySigil sigil name assignment isName

/-! ## Tags -/

inductive AreItems : Text → List Item → Prop where
  | none : AreItems [] []
  | more {gap part rest : Text} {item : Item} {items : List Item} (spaces : IsSpaces gap)
      (apart : gap ≠ []) (isItem : IsItem part item) (later : AreItems rest items) :
      AreItems (gap ++ (part ++ rest)) (item :: items)

inductive IsTagEnd : Text → Bool → Prop where
  | closing {gap : Text} (spaces : IsSpaces gap) : IsTagEnd (gap ++ ['/', '>']) true
  | opening {gap : Text} (spaces : IsSpaces gap) : IsTagEnd (gap ++ ['>']) false

inductive IsStartTag : Text → StartTag → Prop where
  | spelled {tag part ending : Text} {items : List Item} {closesItself : Bool}
      (isName : IsTagName tag) (areItems : AreItems part items)
      (isEnd : IsTagEnd ending closesItself) :
      IsStartTag (tag ++ (part ++ ending)) ⟨tag, items, closesItself⟩

inductive IsEndTag : Text → Text → Prop where
  | spelled {tag gap : Text} (isName : IsTagName tag) (spaces : IsSpaces gap) :
      IsEndTag (tag ++ (gap ++ ['>'])) tag

theorem IsTagEnd.bracket {ending : Text} {closesItself : Bool} (isEnd : IsTagEnd ending closesItself)
    (rest : Text) : ∃ gap bracket others, ending ++ rest = gap ++ bracket :: others ∧
      IsSpaces gap ∧ (bracket = '/' ∨ bracket = '>') := by
  cases isEnd with
  | closing spaces => exact ⟨_, '/', '>' :: rest, List.append_assoc .., spaces, Or.inl rfl⟩
  | opening spaces => exact ⟨_, '>', rest, List.append_assoc .., spaces, Or.inr rfl⟩

theorem readTagEnd_end {ending : Text} {closesItself : Bool} (isEnd : IsTagEnd ending closesItself)
    (rest : Text) : readTagEnd (ending ++ rest) = .ok (closesItself, rest) := by
  cases isEnd with
  | closing spaces =>
    have slash : EndsBefore isSpace ('/' :: '>' :: rest) := endsBefore_cons rfl
    have read := dropWhile_run spaces slash
    rw [List.append_assoc, readTagEnd]
    simp only [List.cons_append, List.nil_append, read]
  | opening spaces =>
    have bracket : EndsBefore isSpace ('>' :: rest) := endsBefore_cons rfl
    have read := dropWhile_run spaces bracket
    rw [List.append_assoc, readTagEnd]
    simp only [List.cons_append, List.nil_append, read]

theorem behind_gap {gap : Text} {first : Char} (others : Text) (spaces : IsSpaces gap)
    (name : continuesItemName first = false ∨ gap ≠ []) (space : isSpace first = false)
    (equals : first ≠ '=') : BehindItem (gap ++ first :: others) where
  ends := by
    cases gap with
    | nil => exact endsBefore_cons (name.resolve_right fun filled => filled rfl)
    | cons leading spaced =>
      exact endsBefore_cons (continuesItemName_space (spaces leading List.mem_cons_self))
  unassigned := by
    rw [dropWhile_run spaces (endsBefore_cons space)]
    intro same
    exact equals (Option.some.inj same)

theorem AreItems.behind {part ending : Text} {items : List Item} {closesItself : Bool}
    (areItems : AreItems part items) (isEnd : IsTagEnd ending closesItself) (rest : Text) :
    BehindItem (part ++ (ending ++ rest)) := by
  cases areItems with
  | none =>
    obtain ⟨gap, bracket, others, same, spaces, isBracket⟩ := isEnd.bracket rest
    rw [List.nil_append, same]
    rcases isBracket with rfl | rfl
    · exact behind_gap others spaces (Or.inl rfl) rfl (by decide)
    · exact behind_gap others spaces (Or.inl rfl) rfl (by decide)
  | more spaces apart isItem later =>
    obtain ⟨first, others, rfl, space, equals⟩ := isItem.head
    simp only [List.append_assoc, List.cons_append]
    exact behind_gap _ spaces (Or.inr apart) space equals

theorem readItem?_bracket {bracket : Char} (rest : Text) (isBracket : bracket = '/' ∨ bracket = '>') :
    readItem? (bracket :: rest) = none := by
  rcases isBracket with rfl | rfl <;> rfl

theorem readItems_none {ending : Text} {closesItself : Bool} (isEnd : IsTagEnd ending closesItself)
    (rest : Text) : readItems (ending ++ rest) = ([], ending ++ rest) := by
  obtain ⟨gap, bracket, others, same, spaces, isBracket⟩ := isEnd.bracket rest
  have space : isSpace bracket = false := by rcases isBracket with rfl | rfl <;> rfl
  rw [same]
  cases gap with
  | nil =>
    rw [List.nil_append, readItems, if_neg (by rw [space]; exact Bool.false_ne_true)]
  | cons first spaced =>
    have nothing : readItem? ((spaced ++ bracket :: others).dropWhile isSpace) = none := by
      rw [dropWhile_run (fun other member => spaces other (List.mem_cons_of_mem _ member))
        (endsBefore_cons space)]
      exact readItem?_bracket others isBracket
    rw [List.cons_append, readItems, if_pos (spaces first List.mem_cons_self)]
    split
    · rfl
    · rename_i found
      rw [nothing] at found
      cases found

theorem readItems_items {part ending : Text} {items : List Item} {closesItself : Bool}
    (areItems : AreItems part items) (isEnd : IsTagEnd ending closesItself) (rest : Text) :
    readItems (part ++ (ending ++ rest)) = (items, ending ++ rest) := by
  induction areItems with
  | none => exact readItems_none isEnd rest
  | @more gap part others item items spaces apart isItem later ih =>
    obtain ⟨first, spaced, rfl⟩ := List.exists_cons_of_ne_nil apart
    have read : readItem? ((spaced ++ (part ++ (others ++ (ending ++ rest)))).dropWhile isSpace) =
        some (item, others ++ (ending ++ rest)) := by
      obtain ⟨head, tail, start, space, -⟩ := isItem.head
      have ends : EndsBefore isSpace (part ++ (others ++ (ending ++ rest))) := by
        rw [start]
        exact endsBefore_cons space
      rw [dropWhile_run (fun other member => spaces other (List.mem_cons_of_mem _ member)) ends]
      exact readItem?_item isItem (later.behind isEnd rest)
    simp only [List.append_assoc, List.cons_append]
    rw [readItems, if_pos (spaces first List.mem_cons_self)]
    split
    · rename_i nothing
      rw [read] at nothing
      cases nothing
    · rename_i found
      rw [read] at found
      obtain ⟨rfl, rfl⟩ := Prod.mk.inj (Option.some.inj found)
      rw [ih]

theorem endsBefore_tag {part ending : Text} {items : List Item} {closesItself : Bool}
    (areItems : AreItems part items) (isEnd : IsTagEnd ending closesItself) (rest : Text) :
    EndsBefore continuesTagName (part ++ (ending ++ rest)) := by
  intro character isFirst
  have outside := (areItems.behind isEnd rest).ends character isFirst
  simp only [continuesItemName, continuesTagName, Bool.or_eq_false_iff] at outside ⊢
  exact outside.1

theorem readStartTag_tag {part : Text} {start : StartTag} (isStart : IsStartTag part start)
    (rest : Text) : readStartTag (part ++ rest) = .ok (start, rest) := by
  obtain ⟨isName, areItems, isEnd⟩ := isStart
  rw [List.append_assoc, List.append_assoc, readStartTag,
    readName?_name isName (endsBefore_tag areItems isEnd rest)]
  dsimp only
  rw [readItems_items areItems isEnd]
  dsimp only
  rw [readTagEnd_end isEnd]

theorem readEndTag_tag {part tag : Text} (isEnd : IsEndTag part tag) (rest : Text) :
    readEndTag (part ++ rest) = .ok (tag, rest) := by
  obtain ⟨isName, spaces⟩ := isEnd
  rename_i gap
  have ends : EndsBefore continuesTagName (gap ++ '>' :: rest) := by
    cases gap with
    | nil => exact endsBefore_cons rfl
    | cons first others =>
      exact endsBefore_cons (continuesTagName_space (spaces first List.mem_cons_self))
  rw [List.append_assoc, List.append_assoc, List.singleton_append, readEndTag,
    readName?_name isName ends]
  dsimp only
  rw [dropWhile_run spaces (endsBefore_cons rfl)]
  rfl

/-- How trees are spelled. A text reaches up to the next tag or to the end. -/
inductive Spells : Text → List Written → Prop where
  | nothing : Spells [] []
  | text {run rest : Text} {trees : List Written} (filled : run ≠ []) (inside : '<' ∉ run)
      (ends : EndsBefore (fun character => character ≠ '<') rest) (later : Spells rest trees) :
      Spells (run ++ rest) (.text run :: trees)
  | void {part tag rest : Text} {items : List Item} {trees : List Written}
      (isStart : IsStartTag part ⟨tag, items, true⟩) (later : Spells rest trees) :
      Spells ('<' :: (part ++ rest)) (.void tag items :: trees)
  | paired {part tag body ending closing rest : Text} {items : List Item}
      {children trees : List Written} (isStart : IsStartTag part ⟨tag, items, false⟩)
      (inner : Spells body children) (isEnd : IsEndTag ending closing)
      (later : Spells rest trees) :
      Spells ('<' :: (part ++ (body ++ '<' :: '/' :: (ending ++ rest))))
        (.paired tag items children closing :: trees)

theorem IsStartTag.head {part : Text} {start : StartTag} (isStart : IsStartTag part start) :
    ∃ first others, part = first :: others ∧ first ≠ '/' := by
  obtain ⟨isName, -, -⟩ := isStart
  obtain ⟨first, others, rfl, starts, -⟩ := isName
  refine ⟨first, _, rfl, ?_⟩
  rintro rfl
  cases starts

theorem readForest_start {part : Text} {start : StartTag} (isStart : IsStartTag part start)
    (frames : List Frame) (done : List Written) (rest : Text) :
    readForest frames done ('<' :: (part ++ rest)) =
      if start.closesItself then readForest frames (.void start.tag start.items :: done) rest
      else readForest (⟨start.tag, start.items, done⟩ :: frames) [] rest := by
  have read := readStartTag_tag isStart rest
  obtain ⟨first, others, rfl, apart⟩ := isStart.head
  rw [readForest]
  · split
    · rename_i stuck failed
      rw [read] at failed
      cases failed
    · rename_i found
      rw [read] at found
      obtain ⟨rfl, rfl⟩ := Prod.mk.inj (Except.ok.inj found)
      rfl
  · intro tail same
    exact absurd (List.cons.inj same).1 apart

theorem readForest_end {part closing : Text} (isEnd : IsEndTag part closing) (frame : Frame)
    (outer : List Frame) (done : List Written) (rest : Text) :
    readForest (frame :: outer) done ('<' :: '/' :: (part ++ rest)) =
      readForest outer (.paired frame.tag frame.items done.reverse closing :: frame.before) rest := by
  have read := readEndTag_tag isEnd rest
  rw [readForest]
  split
  · rename_i stuck failed
    rw [read] at failed
    cases failed
  · rename_i found
    rw [read] at found
    obtain ⟨rfl, rfl⟩ := Prod.mk.inj (Except.ok.inj found)
    rfl

theorem readForest_text {run rest : Text} (filled : run ≠ []) (inside : '<' ∉ run)
    (ends : EndsBefore (fun character => character ≠ '<') rest) (frames : List Frame)
    (done : List Written) :
    readForest frames done (run ++ rest) = readForest frames (.text run :: done) rest := by
  obtain ⟨first, others, rfl⟩ := List.exists_cons_of_ne_nil filled
  have run : ∀ character ∈ others, decide (character ≠ '<') = true := by
    intro character member
    rw [decide_eq_true_iff]
    rintro rfl
    exact inside (List.mem_cons_of_mem _ member)
  rw [List.cons_append, readForest, takeWhile_run run ends, dropWhile_run run ends]
  · intro tail same
    exact absurd (same ▸ List.mem_cons_self) inside
  · intro same
    exact absurd (same ▸ List.mem_cons_self) inside

/-- The reader gets the trees of a spelling back, and goes on behind it. -/
theorem readForest_spelling {part : Text} {trees : List Written} (spells : Spells part trees)
    (rest : Text) (ends : EndsBefore (fun character => character ≠ '<') rest) (frames : List Frame)
    (done : List Written) :
    readForest frames done (part ++ rest) = readForest frames (trees.reverse ++ done) rest := by
  -- Of a spelling inside an element, what is behind it is the end tag: it ends a text as well.
  induction spells generalizing rest frames done with
  | nothing => rfl
  | @text run others trees filled inside endsRun later ih =>
    have boundary : EndsBefore (fun character => character ≠ '<') (others ++ rest) := by
      cases others with
      | nil => exact ends
      | cons first tail => exact endsBefore_cons (endsRun first rfl)
    rw [List.append_assoc, readForest_text filled inside boundary, ih rest ends]
    simp
  | void isStart later ih =>
    rw [List.cons_append, List.append_assoc, readForest_start isStart, if_pos rfl, ih rest ends]
    simp
  | @paired part tag body ending closing others items children trees isStart inner isEnd later
      ihInner ihLater =>
    have boundary : EndsBefore (fun character => character ≠ '<')
        ('<' :: '/' :: (ending ++ (others ++ rest))) := endsBefore_cons rfl
    simp only [List.cons_append, List.append_assoc]
    rw [readForest_start isStart, if_neg Bool.false_ne_true, ihInner _ boundary,
      readForest_end isEnd, ihLater rest ends]
    simp

theorem read_spelling {source : Text} {trees : List Written} (spells : Spells source trees) :
    read source = .ok trees := by
  have forest := readForest_spelling spells [] (endsBefore_nil _) [] []
  rw [List.append_nil, readForest] at forest
  rw [read, forest]
  simp

end TreeTemplate.Markup
