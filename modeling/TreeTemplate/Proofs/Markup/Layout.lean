import Mathlib.Data.List.Basic
import TreeTemplate.Markup.Basic
import TreeTemplate.Proofs.Markup.Decoding
import TreeTemplate.Proofs.Markup.Spelling

/-!
# Layouts

The ways in which a forest of declarations can be laid out as markup: with any blanks around its
texts and between its tags, any spaces between the items of a tag and around their equals signs,
quotes of either kind, entities for as many characters as one likes, and either form of an element
without content. What a layout spells is interpreted as the forest.
-/
set_option autoImplicit false

namespace TreeTemplate.Markup

open Text

section Encoded
variable {raw content : Text}

/-- An entity has no blanks at its ends, and its character is none. -/
theorem unblank_entities : ∀ entity ∈ entities, entity.1 ≠ [] ∧ isBlank entity.2 = false ∧
    entity.1.head?.any isBlank = false ∧ entity.1.getLast?.any isBlank = false := by
  decide

theorem IsEncoded.nil_iff (encoded : IsEncoded raw content) : raw = [] ↔ content = [] := by
  cases encoded with
  | done => exact iff_of_true rfl rfl
  | plain other later => exact iff_of_false (List.cons_ne_nil _ _) (List.cons_ne_nil _ _)
  | entity isEntity later =>
    have filled := (unblank_entities _ isEntity).1
    exact iff_of_false (List.append_ne_nil_of_left_ne_nil filled _) (List.cons_ne_nil _ _)
  | ampersand bare later => exact iff_of_false (List.cons_ne_nil _ _) (List.cons_ne_nil _ _)

theorem IsEncoded.head_blank (encoded : IsEncoded raw content) :
    raw.head?.any isBlank = content.head?.any isBlank := by
  cases encoded with
  | done => rfl
  | plain other later => rfl
  | @entity entity character raw content isEntity later =>
    obtain ⟨filled, seen, starts, -⟩ := unblank_entities _ isEntity
    rw [List.head?_append_of_ne_nil _ filled]
    exact starts.trans seen.symm
  | ampersand bare later => rfl

theorem IsEncoded.last_blank (encoded : IsEncoded raw content) :
    raw.getLast?.any isBlank = content.getLast?.any isBlank := by
  have behind {raw content : Text} {character : Char} (front : Text)
      (encoded : IsEncoded raw content)
      (same : raw.getLast?.any isBlank = content.getLast?.any isBlank)
      (last : front.getLast?.any isBlank = isBlank character) :
      (front ++ raw).getLast?.any isBlank = (character :: content).getLast?.any isBlank := by
    by_cases filled : raw = []
    · rw [filled, encoded.nil_iff.mp filled, List.append_nil, last]
      rfl
    · obtain ⟨first, others, rfl⟩ := List.exists_cons_of_ne_nil (mt encoded.nil_iff.mpr filled)
      rw [List.getLast?_append_of_ne_nil _ filled, same, List.getLast?_cons_cons]
  induction encoded with
  | done => rfl
  | @plain character raw content other later ih => exact behind [character] later ih rfl
  | entity isEntity later ih =>
    obtain ⟨-, seen, -, ends⟩ := unblank_entities _ isEntity
    exact behind _ later ih (ends.trans seen.symm)
  | ampersand bare later ih => exact behind ['&'] later ih rfl

theorem endsBefore_iff_any (inClass : Char → Bool) (text : Text) :
    EndsBefore inClass text ↔ text.head?.any inClass = false := by
  cases text with
  | nil => exact iff_of_true (endsBefore_nil inClass) rfl
  | cons first others =>
    exact ⟨fun ends => ends first rfl, fun isOut => endsBefore_cons isOut⟩

/-- Blanks stand at the ends of a text exactly if they stand at the ends of what is written. -/
theorem IsEncoded.isTrimmed_iff (encoded : IsEncoded raw content) :
    IsTrimmed raw ↔ IsTrimmed content := by
  have ends (text : Text) :
      IsTrimmed text ↔ text ≠ [] ∧ text.head?.any isBlank = false ∧
        text.getLast?.any isBlank = false := by
    rw [← List.head?_reverse, ← endsBefore_iff_any, ← endsBefore_iff_any]
    exact ⟨fun trimmed => ⟨trimmed.filled, trimmed.starts, trimmed.ends⟩,
      fun parts => ⟨parts.1, parts.2.1, parts.2.2⟩⟩
  rw [ends, ends, encoded.head_blank, encoded.last_blank, ne_eq, encoded.nil_iff]

end Encoded

def Assigns (part value : Text) : Prop :=
  ∃ raw, IsAssignment part raw ∧ IsEncoded raw value

inductive HasKind : Text → Text → PropertyValue → Prop where
  | string (value : Text) : HasKind "string".toList value (.string value)
  | affirmed : HasKind "bool".toList "true".toList (.bool true)
  | denied : HasKind "bool".toList "false".toList (.bool false)
  | number {value : Text} {quantity : Number}
      (reads : Number.read? (Text.trim value) = some quantity) :
      HasKind "number".toList value (.number quantity)
  | json {value : Text} {content : Json} (reads : Json.read? value = some content) :
      HasKind "json".toList value (.json content)

def modeText (enabled : Bool) : Text :=
  if enabled then "on".toList else "off".toList

/-- How an item is written, and what it declares. -/
inductive DeclaresItem : Text → Declaration → Prop where
  | flag {name : Text} (isName : IsItemName name) (literal : name ≠ interpolationItem) :
      DeclaresItem name (.setAttribute name [])
  | setAttribute {name part value : Text} (isName : IsItemName name)
      (literal : name ≠ interpolationItem) (assigns : Assigns part value) :
      DeclaresItem (name ++ part) (.setAttribute name value)
  | bindAttribute {name part field : Text} (isName : IsItemName name)
      (assigns : Assigns part field) :
      DeclaresItem (':' :: (name ++ part)) (.directive (.bindAttribute name field))
  | bindProperty {name part field : Text} (isName : IsItemName name)
      (assigns : Assigns part field) :
      DeclaresItem (':' :: '.' :: (name ++ part)) (.directive (.bindProperty name field))
  | listen {event : Text} (isName : IsItemName event) :
      DeclaresItem ('@' :: event) (.directive (.listen event none))
  | listenWith {event part value : Text} (isName : IsItemName event)
      (assigns : Assigns part value) :
      DeclaresItem ('@' :: (event ++ part))
        (.directive (.listen event (some (splitArguments value))))
  | property {name part value : Text} (isName : IsItemName name) (plain : ':' ∉ name)
      (assigns : Assigns part value) :
      DeclaresItem ('.' :: (name ++ part)) (.setProperty name (.string value))
  | typedProperty {name kind part value : Text} {typed : PropertyValue} (isName : IsItemName name)
      (plain : ':' ∉ name) (hasKind : HasKind kind value typed) (assigns : Assigns part value) :
      DeclaresItem ('.' :: (name ++ ':' :: (kind ++ part))) (.setProperty name typed)
  | interpolate {part : Text} (enabled : Bool) (assigns : Assigns part (modeText enabled)) :
      DeclaresItem (interpolationItem ++ part) (.directive (.interpolate enabled))

theorem typedValue_eq_ok_iff (name kind value : Text) (typed : PropertyValue) :
    typedValue name kind value = .ok typed ↔ HasKind kind value typed := by
  constructor
  · intro success
    unfold typedValue at success
    dsimp only at success
    split at success
    · rename_i isString
      rw [isString, ← Except.ok.inj success]
      exact .string value
    · split at success
      · rename_i isBool
        rw [isBool]
        split at success
        · rename_i isTrue
          rw [isTrue, ← Except.ok.inj success]
          exact .affirmed
        · split at success
          · rename_i isFalse
            rw [isFalse, ← Except.ok.inj success]
            exact .denied
          · cases success
      · split at success
        · rename_i isNumber
          rw [isNumber]
          split at success
          · rename_i quantity reads
            rw [← Except.ok.inj success]
            exact .number reads
          · cases success
        · split at success
          · rename_i isJson
            rw [isJson]
            split at success
            · rename_i content reads
              rw [← Except.ok.inj success]
              exact .json reads
            · cases success
          · cases success
  · intro hasKind
    cases hasKind with
    | string => rfl
    | affirmed => rfl
    | denied => rfl
    | number reads =>
      rw [typedValue, if_neg (by decide), if_neg (by decide), if_pos rfl, reads]
    | json reads =>
      rw [typedValue, if_neg (by decide), if_neg (by decide), if_neg (by decide), if_pos rfl, reads]

theorem splitKind_plain {name : Text} (plain : ':' ∉ name) :
    splitKind name = (name, "string".toList) := by
  have run : ∀ character ∈ name, decide (character ≠ ':') = true := by
    intro character member
    rw [decide_eq_true_iff]
    rintro rfl
    exact plain member
  have nothing := dropWhile_run run (endsBefore_nil _)
  rw [List.append_nil] at nothing
  rw [splitKind, nothing]

theorem splitKind_typed {name : Text} (plain : ':' ∉ name) (kind : Text) :
    splitKind (name ++ ':' :: kind) = (name, kind) := by
  have run : ∀ character ∈ name, decide (character ≠ ':') = true := by
    intro character member
    rw [decide_eq_true_iff]
    rintro rfl
    exact plain member
  have ends : EndsBefore (fun character => decide (character ≠ ':')) (':' :: kind) :=
    endsBefore_cons rfl
  rw [splitKind, dropWhile_run run ends, takeWhile_run run ends]

theorem HasKind.continues {kind value : Text} {typed : PropertyValue}
    (hasKind : HasKind kind value typed) :
    ∀ character ∈ kind, continuesItemName character = true := by
  cases hasKind <;> exact List.all_eq_true.mp rfl

theorem isItemName_typed {name kind : Text} (isName : IsItemName name)
    (continues : ∀ character ∈ kind, continuesItemName character = true) :
    IsItemName (name ++ ':' :: kind) := by
  obtain ⟨first, others, rfl, start, inside⟩ := isName
  refine ⟨first, others ++ ':' :: kind, rfl, start, ?_⟩
  exact List.forall_mem_append.mpr ⟨inside, List.forall_mem_cons.mpr ⟨rfl, continues⟩⟩

theorem isItemName_interpolationItem : IsItemName interpolationItem :=
  isName_of_all rfl rfl

theorem DeclaresItem.declare {part : Text} {declaration : Declaration}
    (declares : DeclaresItem part declaration) :
    ∃ item, IsItem part item ∧ item.declare = .ok declaration := by
  have decoded {part value : Text} (assigns : Assigns part value) :
      ∃ raw, IsAssignment part raw ∧ decodeEntities raw = value := by
    obtain ⟨raw, isAssignment, encoded⟩ := assigns
    exact ⟨raw, isAssignment, decodeEntities_encoded encoded⟩
  cases declares with
  | flag isName literal =>
    refine ⟨⟨.bare, part, none⟩, .flag .bare isName, ?_⟩
    rw [Item.declare, if_neg literal]
    rfl
  | @setAttribute name part value isName literal assigns =>
    obtain ⟨raw, isAssignment, rfl⟩ := decoded assigns
    refine ⟨⟨.bare, name, some raw⟩, .assigned .bare isName isAssignment, ?_⟩
    rw [Item.declare, if_neg literal]
    rfl
  | @bindAttribute name part field isName assigns =>
    obtain ⟨raw, isAssignment, rfl⟩ := decoded assigns
    exact ⟨⟨.bindAttribute, name, some raw⟩, .assigned .bindAttribute isName isAssignment, rfl⟩
  | @bindProperty name part field isName assigns =>
    obtain ⟨raw, isAssignment, rfl⟩ := decoded assigns
    exact ⟨⟨.bindProperty, name, some raw⟩, .assigned .bindProperty isName isAssignment, rfl⟩
  | @listen event isName => exact ⟨⟨.listen, event, none⟩, .flag .listen isName, rfl⟩
  | @listenWith event part value isName assigns =>
    obtain ⟨raw, isAssignment, rfl⟩ := decoded assigns
    exact ⟨⟨.listen, event, some raw⟩, .assigned .listen isName isAssignment, rfl⟩
  | @property name part value isName plain assigns =>
    obtain ⟨raw, isAssignment, rfl⟩ := decoded assigns
    refine ⟨⟨.setProperty, name, some raw⟩, .assigned .setProperty isName isAssignment, ?_⟩
    rw [Item.declare]
    dsimp only
    rw [splitKind_plain plain]
    rfl
  | @typedProperty name kind part value typed isName plain hasKind assigns =>
    obtain ⟨raw, isAssignment, rfl⟩ := decoded assigns
    have isWhole := isItemName_typed isName hasKind.continues
    have isItem := IsItem.assigned .setProperty isWhole isAssignment
    rw [List.append_assoc, List.cons_append] at isItem
    refine ⟨⟨.setProperty, name ++ ':' :: kind, some raw⟩, isItem, ?_⟩
    rw [Item.declare]
    dsimp only
    rw [splitKind_typed plain]
    have succeeds := (typedValue_eq_ok_iff name kind _ typed).mpr hasKind
    change (typedValue name kind (decodeEntities raw) >>= fun typed =>
      pure (Declaration.setProperty name typed)) = _
    rw [succeeds]
    rfl
  | @interpolate part enabled assigns =>
    obtain ⟨raw, isAssignment, same⟩ := decoded assigns
    refine ⟨⟨.bare, interpolationItem, some raw⟩,
      .assigned .bare isItemName_interpolationItem isAssignment, ?_⟩
    change (readMode (decodeEntities raw) >>= fun mode =>
      pure (Declaration.directive (Directive.interpolate mode))) = _
    rw [same]
    cases enabled <;> rfl

inductive DeclaresItems : Text → List Declaration → Prop where
  | none : DeclaresItems [] []
  | more {gap part rest : Text} {declaration : Declaration} {declarations : List Declaration}
      (spaces : IsSpaces gap) (apart : gap ≠ []) (declares : DeclaresItem part declaration)
      (later : DeclaresItems rest declarations) :
      DeclaresItems (gap ++ (part ++ rest)) (declaration :: declarations)

theorem DeclaresItems.declareAll {part : Text} {declarations : List Declaration}
    (declares : DeclaresItems part declarations) :
    ∃ items, AreItems part items ∧ Item.declareAll items = .ok declarations := by
  induction declares with
  | none => exact ⟨[], .none, rfl⟩
  | more spaces apart first later ih =>
    obtain ⟨item, isItem, declared⟩ := first.declare
    obtain ⟨items, areItems, declaredLater⟩ := ih
    refine ⟨item :: items, .more spaces apart isItem areItems, ?_⟩
    rw [Item.declareAll, declared, declaredLater]
    rfl

/-- A run of characters that ends at the next tag, and what it declares. -/
inductive Pending : Text → List Declared → Prop where
  | blank {run : Text} (blanks : IsBlanks run) : Pending run []
  | text {before raw content behind : Text} (blanksBefore : IsBlanks before)
      (encoded : IsEncoded raw content) (noBracket : '<' ∉ raw) (trimmed : IsTrimmed content)
      (blanksBehind : IsBlanks behind) :
      Pending (before ++ (raw ++ behind)) [.text content]

theorem noBracket_blanks {run : Text} (blanks : IsBlanks run) : '<' ∉ run := by
  intro member
  cases blanks '<' member

theorem Pending.noBracket {run : Text} {declared : List Declared} (pending : Pending run declared) :
    '<' ∉ run := by
  cases pending with
  | blank blanks => exact noBracket_blanks blanks
  | text blanksBefore encoded noBracket trimmed blanksBehind =>
    rw [List.mem_append, List.mem_append, not_or, not_or]
    exact ⟨noBracket_blanks blanksBefore, noBracket, noBracket_blanks blanksBehind⟩

theorem Pending.append {run blanks : Text} {declared : List Declared}
    (pending : Pending run declared) (isBlanks : IsBlanks blanks) :
    Pending (run ++ blanks) declared := by
  cases pending with
  | blank before => exact .blank (isBlanks_append before isBlanks)
  | text blanksBefore encoded noBracket trimmed blanksBehind =>
    rw [List.append_assoc, List.append_assoc]
    exact .text blanksBefore encoded noBracket trimmed (isBlanks_append blanksBehind isBlanks)

theorem Pending.interpret {run : Text} {declared : List Declared} (pending : Pending run declared) :
    ∃ piece : Option Declared, (Written.text run).interpret = .ok piece ∧
      piece.toList = declared := by
  cases pending with
  | blank blanks =>
    refine ⟨none, ?_, rfl⟩
    rw [Written.interpret, trim_blanks blanks]
    rfl
  | @text before raw content behind blanksBefore encoded noBracket trimmed blanksBehind =>
    have trimmedRaw := encoded.isTrimmed_iff.mpr trimmed
    refine ⟨some (.text content), ?_, rfl⟩
    rw [Written.interpret, trim_around blanksBefore trimmedRaw blanksBehind,
      decodeEntities_encoded encoded, if_neg (by simpa using trimmedRaw.filled)]

def Declares (text : Text) (declared : List Declared) : Prop :=
  ∃ trees, Spells text trees ∧ Written.interpretAll trees = .ok declared

theorem Declares.behind {run rest : Text} {first later : List Declared} (pending : Pending run first)
    (ends : EndsBefore (fun character => character ≠ '<') rest) (reads : Declares rest later) :
    Declares (run ++ rest) (first ++ later) := by
  obtain ⟨trees, spells, interpreted⟩ := reads
  obtain ⟨piece, meaning, rfl⟩ := pending.interpret
  cases run with
  | nil =>
    have nothing : piece = none := by
      rw [Written.interpret] at meaning
      exact (Except.ok.inj meaning).symm
    rw [nothing]
    exact ⟨trees, spells, interpreted⟩
  | cons character others =>
    refine ⟨_, .text (List.cons_ne_nil _ _) pending.noBracket ends spells, ?_⟩
    rw [Written.interpretAll, meaning, interpreted]
    rfl

theorem declares_pending {run : Text} {declared : List Declared} (pending : Pending run declared) :
    Declares run declared := by
  have reads := Declares.behind pending (endsBefore_nil _) ⟨[], .nothing, rfl⟩
  rwa [List.append_nil, List.append_nil] at reads

theorem declares_void {tag part gap rest : Text} {declarations : List Declaration}
    {later : List Declared} (isName : IsTagName tag) (declares : DeclaresItems part declarations)
    (spaces : IsSpaces gap) (behind : Declares rest later) :
    Declares ('<' :: (tag ++ (part ++ (gap ++ '/' :: '>' :: rest))))
      (.element tag declarations [] :: later) := by
  obtain ⟨items, areItems, declared⟩ := declares.declareAll
  obtain ⟨trees, spells, interprets⟩ := behind
  have spellsTag := Spells.void (.spelled isName areItems (.closing spaces)) spells
  simp only [List.append_assoc, List.cons_append, List.nil_append] at spellsTag
  refine ⟨_, spellsTag, ?_⟩
  rw [Written.interpretAll, Written.interpret, declared, interprets]
  rfl

theorem declares_paired {tag part gap body ending rest : Text} {declarations : List Declaration}
    {inner later : List Declared} (isName : IsTagName tag)
    (declares : DeclaresItems part declarations) (spaces : IsSpaces gap)
    (inside : Declares body inner) (spacesEnding : IsSpaces ending) (behind : Declares rest later) :
    Declares ('<' :: (tag ++ (part ++ (gap ++
        '>' :: (body ++ '<' :: '/' :: (tag ++ (ending ++ '>' :: rest)))))))
      (.element tag declarations inner :: later) := by
  obtain ⟨items, areItems, declared⟩ := declares.declareAll
  obtain ⟨children, spellsBody, interpretsBody⟩ := inside
  obtain ⟨trees, spells, interprets⟩ := behind
  have spellsTags := Spells.paired (.spelled isName areItems (.opening spaces)) spellsBody
    (.spelled isName spacesEnding) spells
  simp only [List.append_assoc, List.cons_append, List.nil_append] at spellsTags
  refine ⟨_, spellsTags, ?_⟩
  have interpretsTags : (Written.paired tag items children tag).interpret =
      .ok (some (.element tag declarations inner)) := by
    rw [Written.interpret, declared, interpretsBody]
    exact if_pos rfl
  rw [Written.interpretAll, interpretsTags, interprets]
  rfl

/-! ## Forests -/

/-- How a forest is laid out: runs of blanks, or of a text with blanks around it, take turns with
elements. -/
inductive LaysOut : Text → List Declared → Prop where
  | last {run : Text} {first : List Declared} (pending : Pending run first) : LaysOut run first
  | void {run tag part gap rest : Text} {first forest : List Declared}
      {declarations : List Declaration} (pending : Pending run first) (isName : IsTagName tag)
      (declares : DeclaresItems part declarations) (spaces : IsSpaces gap)
      (later : LaysOut rest forest) :
      LaysOut (run ++ '<' :: (tag ++ (part ++ (gap ++ '/' :: '>' :: rest))))
        (first ++ .element tag declarations [] :: forest)
  | paired {run tag part gap body ending rest : Text} {first children forest : List Declared}
      {declarations : List Declaration} (pending : Pending run first) (isName : IsTagName tag)
      (declares : DeclaresItems part declarations) (spaces : IsSpaces gap)
      (inside : LaysOut body children) (spacesEnding : IsSpaces ending)
      (later : LaysOut rest forest) :
      LaysOut (run ++ '<' :: (tag ++ (part ++ (gap ++
          '>' :: (body ++ '<' :: '/' :: (tag ++ (ending ++ '>' :: rest)))))))
        (first ++ .element tag declarations children :: forest)

theorem LaysOut.declares {source : Text} {forest : List Declared} (laysOut : LaysOut source forest) :
    Declares source forest := by
  induction laysOut with
  | last pending => exact declares_pending pending
  | void pending isName declares spaces _ behind =>
    exact Declares.behind pending (endsBefore_cons rfl)
      (declares_void isName declares spaces behind)
  | paired pending isName declares spaces _ spacesEnding _ inside behind =>
    exact Declares.behind pending (endsBefore_cons rfl)
      (declares_paired isName declares spaces inside spacesEnding behind)

theorem parse_of_declares {source : Text} {forest : List Declared} (declares : Declares source forest)
    (filled : forest ≠ []) : Markup.parse source = .ok (Markup.ofDeclared forest) := by
  obtain ⟨trees, spells, interprets⟩ := declares
  obtain ⟨first, rest, rfl⟩ := List.exists_cons_of_ne_nil filled
  rw [Markup.parse, read_spelling spells]
  dsimp only
  rw [interprets]

end TreeTemplate.Markup
