import TreeTemplate.Proofs.Markup.Interpretation

/-!
# Mistakes in markup

A source that can be derived is refused for the first construct in it that is wrong: an item of a tag,
or an end tag. The source is cut into stretches at its constructs, so that the order of the stretches
is the order of the text. Interpreting goes through the constructs in this order and stops at the
first mistake. Without mistakes a source is refused only if there is nothing in it but blanks.
-/
set_option autoImplicit false

namespace TreeTemplate.Markup

open Text

/-- A part of markup that can be wrong: an item of a tag, or an end tag together with the name in the
start tag of its element. -/
inductive Construct where
  | item (content : Item)
  | endTag (opening closing : Text)

def Item.NeedsValue (item : Item) : Prop :=
  item.sigil = .bindAttribute ∨ item.sigil = .bindProperty ∨ item.sigil = .setProperty ∨
    (item.sigil = .bare ∧ item.name = interpolationItem)

/-- The name and the kind of a property in the name of its item: the kind is what follows the first
colon. -/
inductive NamesProperty : Text → Text → Text → Prop where
  | plain {name : Text} (noColon : ':' ∉ name) : NamesProperty name name "string".toList
  | typed {name : Text} (noColon : ':' ∉ name) (kind : Text) :
      NamesProperty (name ++ ':' :: kind) name kind

def propertyKinds : List Text :=
  ["string".toList, "bool".toList, "number".toList, "json".toList]

inductive Construct.IsWrong : Construct → MarkupError → Prop where
  | missingValue {item : Item} (needsValue : item.NeedsValue) (noValue : item.value = none) :
      IsWrong (.item item) (.missingValue item.sigil item.name)
  | unknownKind {whole name kind : Text} (value : Option Text)
      (names : NamesProperty whole name kind) (unknown : kind ∉ propertyKinds) :
      IsWrong (.item ⟨.setProperty, whole, value⟩) (.unknownKind name kind)
  | invalidValue {whole name kind raw : Text} (names : NamesProperty whole name kind)
      (known : kind ∈ propertyKinds)
      (unreadable : ∀ typed, ¬HasKind kind (decodeEntities raw) typed) :
      IsWrong (.item ⟨.setProperty, whole, some raw⟩) (.invalidValue name kind (decodeEntities raw))
  | interpolationMode {raw : Text} (noMode : ∀ enabled, decodeEntities raw ≠ modeText enabled) :
      IsWrong (.item ⟨.bare, interpolationItem, some raw⟩) (.interpolationMode (decodeEntities raw))
  | mismatchedTag {opening closing : Text} (apart : closing ≠ opening) :
      IsWrong (.endTag opening closing) (.mismatchedTag opening closing)

/-- Of several mistakes in one construct the one of the least rank is reported. -/
def MarkupError.rank : MarkupError → Nat
  | .missingValue _ _ => 0
  | .unknownKind _ _ => 1
  | _ => 2

def Construct.Reports (construct : Construct) (reason : MarkupError) : Prop :=
  construct.IsWrong reason ∧ ∀ other, construct.IsWrong other → reason.rank ≤ other.rank

theorem NamesProperty.splitKind {whole name kind : Text} (names : NamesProperty whole name kind) :
    Markup.splitKind whole = (name, kind) := by
  cases names with
  | plain noColon => exact splitKind_plain noColon
  | typed noColon kind => exact splitKind_typed noColon kind

theorem namesProperty_splitKind (whole : Text) :
    NamesProperty whole (splitKind whole).1 (splitKind whole).2 := by
  by_cases colon : ':' ∈ whole
  · obtain ⟨name, kind, rfl, noColon⟩ := List.eq_append_cons_of_mem colon
    rw [splitKind_typed noColon]
    exact .typed noColon kind
  · rw [splitKind_plain colon]
    exact .plain colon

theorem NamesProperty.functional {whole name kind other otherKind : Text}
    (left : NamesProperty whole name kind) (right : NamesProperty whole other otherKind) :
    name = other ∧ kind = otherKind :=
  Prod.mk.inj (left.splitKind.symm.trans right.splitKind)

/-- Two mistakes of one construct that have the same rank are the same. -/
theorem Construct.IsWrong.eq_of_rank {construct : Construct} {left right : MarkupError}
    (first : construct.IsWrong left) (second : construct.IsWrong right)
    (sameRank : left.rank = right.rank) : left = right := by
  cases first with
  | missingValue needsValue noValue =>
    cases second with
    | missingValue => rfl
    | unknownKind | invalidValue | interpolationMode => cases sameRank
  | unknownKind value names unknown =>
    cases second with
    | unknownKind _ others _ =>
      obtain ⟨rfl, rfl⟩ := names.functional others
      rfl
    | missingValue | invalidValue => cases sameRank
  | invalidValue names known unreadable =>
    cases second with
    | invalidValue others _ _ =>
      obtain ⟨rfl, rfl⟩ := names.functional others
      rfl
    | missingValue | unknownKind => cases sameRank
  | interpolationMode noMode =>
    cases second with
    | interpolationMode => rfl
    | missingValue => cases sameRank
  | mismatchedTag apart =>
    cases second
    rfl

def failure? {ε α : Type} : Except ε α → Option ε
  | .ok _ => none
  | .error reason => some reason

theorem failure?_eq_some_iff {ε α : Type} (result : Except ε α) (reason : ε) :
    failure? result = some reason ↔ result = .error reason := by
  cases result with
  | ok value => simp [failure?]
  | error own => simp [failure?]

theorem failure?_eq_none_iff {ε α : Type} (result : Except ε α) :
    failure? result = none ↔ ∃ value, result = .ok value := by
  cases result with
  | ok value => exact ⟨fun _ => ⟨value, rfl⟩, fun _ => rfl⟩
  | error reason => simp [failure?]

/-- A chain of two steps fails as its first step does, or else as its second step does. -/
theorem failure?_bind {ε α β : Type} {first : Except ε α} {next : α → Except ε β}
    {later : Option ε} (same : ∀ value, first = .ok value → failure? (next value) = later) :
    failure? (first >>= next) = (failure? first).or later := by
  cases first with
  | error reason => rfl
  | ok value => exact same value rfl

/-- A last step that cannot fail changes nothing. -/
theorem failure?_bind_pure {ε α β : Type} (first : Except ε α) (image : α → β) :
    failure? (first >>= fun value => pure (image value)) = failure? first := by
  cases first <;> rfl

theorem HasKind.known {kind value : Text} {typed : PropertyValue} (hasKind : HasKind kind value typed) :
    kind ∈ propertyKinds := by
  cases hasKind <;> decide

/-- A value is not read because there is no such kind, or because the kind has no such value. -/
theorem typedValue_error_cases {name kind value : Text} {reason : MarkupError}
    (failed : typedValue name kind value = .error reason) :
    (kind ∉ propertyKinds ∧ reason = .unknownKind name kind) ∨
      (kind ∈ propertyKinds ∧ (∀ typed, ¬HasKind kind value typed) ∧
        reason = .invalidValue name kind value) := by
  have unreadable : ∀ typed, ¬HasKind kind value typed := by
    intro typed hasKind
    cases failed.symm.trans ((typedValue_eq_ok_iff name kind value typed).mpr hasKind)
  by_cases known : kind ∈ propertyKinds
  · refine Or.inr ⟨known, unreadable, ?_⟩
    simp only [propertyKinds, List.mem_cons, List.not_mem_nil, or_false] at known
    rcases known with rfl | rfl | rfl | rfl <;> unfold typedValue at failed <;> dsimp only at failed
    · cases failed
    · rw [if_neg (by decide), if_pos rfl] at failed
      split at failed
      · cases failed
      · split at failed
        · cases failed
        · exact (Except.error.inj failed).symm
    · rw [if_neg (by decide), if_neg (by decide), if_pos rfl] at failed
      split at failed
      · cases failed
      · exact (Except.error.inj failed).symm
    · rw [if_neg (by decide), if_neg (by decide), if_neg (by decide), if_pos rfl] at failed
      split at failed
      · cases failed
      · exact (Except.error.inj failed).symm
  · refine Or.inl ⟨known, ?_⟩
    simp only [propertyKinds, List.mem_cons, List.not_mem_nil, or_false, not_or] at known
    obtain ⟨noString, noBool, noNumber, noJson⟩ := known
    unfold typedValue at failed
    dsimp only at failed
    rw [if_neg noString, if_neg noBool, if_neg noNumber, if_neg noJson] at failed
    exact (Except.error.inj failed).symm

theorem Item.declare_property (name raw : Text) :
    (Item.mk .setProperty name (some raw)).declare =
      (typedValue (splitKind name).1 (splitKind name).2 (decodeEntities raw) >>= fun typed =>
        pure (.setProperty (splitKind name).1 typed)) := rfl

theorem Item.declare_mode (raw : Text) :
    (Item.mk .bare interpolationItem (some raw)).declare =
      (readMode (decodeEntities raw) >>= fun enabled =>
        pure (.directive (.interpolate enabled))) := rfl

theorem readMode_eq_error {value : Text} {reason : MarkupError}
    (failed : readMode value = .error reason) :
    (∀ enabled, value ≠ modeText enabled) ∧ reason = .interpolationMode value := by
  rw [readMode] at failed
  split at failed
  · cases failed
  · rename_i noOn
    split at failed
    · cases failed
    · rename_i noOff
      refine ⟨?_, (Except.error.inj failed).symm⟩
      intro enabled
      cases enabled with
      | true => exact noOn
      | false => exact noOff

/-- A value that is lacking is reported before anything else is looked at. -/
theorem reports_missingValue {sigil : Sigil} {name : Text}
    (needsValue : (Item.mk sigil name none).NeedsValue) :
    (Construct.item ⟨sigil, name, none⟩).Reports (.missingValue sigil name) :=
  ⟨.missingValue needsValue rfl, fun _ _ => Nat.zero_le _⟩

theorem reports_of_declare_property {name raw : Text} {reason : MarkupError}
    (failed : (Item.mk .setProperty name (some raw)).declare = .error reason) :
    (Construct.item ⟨.setProperty, name, some raw⟩).Reports reason := by
  rw [Item.declare_property, ← failure?_eq_some_iff, failure?_bind_pure, failure?_eq_some_iff]
    at failed
  have names := namesProperty_splitKind name
  rcases typedValue_error_cases failed with ⟨unknown, rfl⟩ | ⟨known, unreadable, rfl⟩
  · refine ⟨.unknownKind _ names unknown, ?_⟩
    intro other wrong
    cases wrong with
    | missingValue _ noValue => cases noValue
    | unknownKind => exact Nat.le_refl _
    | invalidValue => exact Nat.le_succ _
  · refine ⟨.invalidValue names known unreadable, ?_⟩
    intro other wrong
    cases wrong with
    | missingValue _ noValue => cases noValue
    | unknownKind _ others unknown =>
      rw [(names.functional others).2] at known
      exact absurd known unknown
    | invalidValue => exact Nat.le_refl _

theorem reports_of_declare_mode {raw : Text} {reason : MarkupError}
    (failed : (Item.mk .bare interpolationItem (some raw)).declare = .error reason) :
    (Construct.item ⟨.bare, interpolationItem, some raw⟩).Reports reason := by
  rw [Item.declare_mode, ← failure?_eq_some_iff, failure?_bind_pure, failure?_eq_some_iff]
    at failed
  obtain ⟨noMode, rfl⟩ := readMode_eq_error failed
  refine ⟨.interpolationMode noMode, ?_⟩
  intro other wrong
  cases wrong with
  | missingValue _ noValue => cases noValue
  | interpolationMode => exact Nat.le_refl _

/-- What makes an item fail is its least mistake. -/
theorem Item.reports_of_declare {item : Item} {reason : MarkupError}
    (failed : item.declare = .error reason) : (Construct.item item).Reports reason := by
  obtain ⟨sigil, name, value⟩ := item
  cases sigil with
  | bindAttribute =>
    cases value with
    | none =>
      obtain rfl := Except.error.inj failed
      exact reports_missingValue (Or.inl rfl)
    | some raw => cases failed
  | bindProperty =>
    cases value with
    | none =>
      obtain rfl := Except.error.inj failed
      exact reports_missingValue (Or.inr (Or.inl rfl))
    | some raw => cases failed
  | listen => cases failed
  | setProperty =>
    cases value with
    | none =>
      obtain rfl := Except.error.inj failed
      exact reports_missingValue (Or.inr (Or.inr (Or.inl rfl)))
    | some raw => exact reports_of_declare_property failed
  | bare =>
    by_cases isMode : name = interpolationItem
    · subst isMode
      cases value with
      | none =>
        obtain rfl := Except.error.inj failed
        exact reports_missingValue (Or.inr (Or.inr (Or.inr ⟨rfl, rfl⟩)))
      | some raw => exact reports_of_declare_mode failed
    · rw [Item.declare, if_neg isMode] at failed
      cases failed

/-- An item with a mistake fails. -/
theorem Item.declare_of_isWrong {item : Item} {reason : MarkupError}
    (wrong : (Construct.item item).IsWrong reason) : failure? item.declare ≠ none := by
  have unread {name raw : Text}
      (unreadable : ∀ typed, ¬HasKind (splitKind name).2 (decodeEntities raw) typed) :
      failure? (Item.mk .setProperty name (some raw)).declare ≠ none := by
    intro declared
    obtain ⟨declaration, succeeds⟩ := (failure?_eq_none_iff _).mp declared
    rw [Item.declare_property] at succeeds
    obtain ⟨typed, reads, -⟩ := bind_eq_ok succeeds
    exact unreadable typed ((typedValue_eq_ok_iff _ _ _ _).mp reads)
  cases wrong with
  | missingValue needsValue noValue =>
    obtain ⟨sigil, name, value⟩ := item
    obtain rfl : value = none := noValue
    rcases needsValue with isSigil | isSigil | isSigil | ⟨isSigil, isName⟩ <;>
      obtain rfl : sigil = _ := isSigil
    · exact Option.some_ne_none _
    · exact Option.some_ne_none _
    · exact Option.some_ne_none _
    · obtain rfl : name = _ := isName
      exact Option.some_ne_none _
  | unknownKind value names unknown =>
    cases value with
    | none => exact Option.some_ne_none _
    | some raw =>
      refine unread ?_
      intro typed hasKind
      rw [names.splitKind] at hasKind
      exact unknown hasKind.known
  | invalidValue names known unreadable =>
    refine unread ?_
    intro typed hasKind
    rw [names.splitKind] at hasKind
    exact unreadable typed hasKind
  | interpolationMode noMode =>
    intro declared
    obtain ⟨declaration, succeeds⟩ := (failure?_eq_none_iff _).mp declared
    rw [Item.declare_mode] at succeeds
    obtain ⟨enabled, reads, -⟩ := bind_eq_ok succeeds
    exact noMode enabled (readMode_eq_ok reads)

def Construct.mistake? : Construct → Option MarkupError
  | .item content => failure? content.declare
  | .endTag opening closing =>
    if closing = opening then none else some (.mismatchedTag opening closing)

theorem Construct.mistake?_eq_none_iff (construct : Construct) :
    construct.mistake? = none ↔ ∀ reason, ¬construct.IsWrong reason := by
  cases construct with
  | item content =>
    constructor
    · intro declared reason wrong
      exact Item.declare_of_isWrong wrong declared
    · intro right
      by_contra failed
      obtain ⟨reason, found⟩ := Option.ne_none_iff_exists'.mp failed
      exact right reason (Item.reports_of_declare ((failure?_eq_some_iff _ _).mp found)).1
  | endTag opening closing =>
    rw [mistake?]
    split
    · rename_i same
      refine iff_of_true rfl ?_
      intro reason wrong
      cases wrong with
      | mismatchedTag apart => exact apart same
    · rename_i apart
      exact iff_of_false (Option.some_ne_none _) fun right => right _ (.mismatchedTag apart)

theorem Construct.mistake?_eq_some_iff (construct : Construct) (reason : MarkupError) :
    construct.mistake? = some reason ↔ construct.Reports reason := by
  have reports {own : MarkupError} (found : construct.mistake? = some own) :
      construct.Reports own := by
    cases construct with
    | item content => exact Item.reports_of_declare ((failure?_eq_some_iff _ _).mp found)
    | endTag opening closing =>
      rw [mistake?] at found
      split at found
      · cases found
      · rename_i apart
        obtain rfl := Option.some.inj found
        refine ⟨.mismatchedTag apart, ?_⟩
        intro other wrong
        cases wrong
        exact Nat.le_refl _
  refine ⟨reports, ?_⟩
  rintro ⟨wrong, least⟩
  cases found : construct.mistake? with
  | none => exact absurd wrong ((construct.mistake?_eq_none_iff.mp found) reason)
  | some own =>
    obtain ⟨ownWrong, ownLeast⟩ := reports found
    rw [ownWrong.eq_of_rank wrong (Nat.le_antisymm (ownLeast reason wrong) (least own ownWrong))]

/-! ## Interpreting -/

mutual

def Written.constructs : Written → List Construct
  | .text _ => []
  | .void _ items => items.map .item
  | .paired tag items children closing =>
    items.map .item ++ (constructsOfAll children ++ [.endTag tag closing])

def Written.constructsOfAll : List Written → List Construct
  | [] => []
  | first :: rest => first.constructs ++ constructsOfAll rest

end

theorem failure?_declareAll (items : List Item) :
    failure? (Item.declareAll items) =
      (items.map Construct.item).findSome? Construct.mistake? := by
  induction items with
  | nil => rfl
  | cons first rest ih =>
    have later : failure? (Item.declareAll (first :: rest)) =
        (failure? first.declare).or (failure? (Item.declareAll rest)) := by
      exact failure?_bind fun _ _ => failure?_bind_pure _ _
    rw [later, ih, List.map_cons, List.findSome?_cons, Construct.mistake?]
    cases failure? first.declare <;> rfl

mutual

/-- Interpreting fails with the first mistake among the constructs. -/
theorem failure?_interpret (written : Written) :
    failure? written.interpret = written.constructs.findSome? Construct.mistake? := by
  cases written with
  | text raw => rfl
  | void tag items =>
    rw [Written.constructs, ← failure?_declareAll]
    exact failure?_bind_pure _ _
  | paired tag items children closing =>
    rw [Written.constructs, List.findSome?_append, List.findSome?_append, ← failure?_declareAll,
      ← failure?_interpretAll children]
    refine failure?_bind fun declarations _ => ?_
    refine failure?_bind fun inner _ => ?_
    rw [List.findSome?_singleton, Construct.mistake?]
    split <;> rfl

theorem failure?_interpretAll (trees : List Written) :
    failure? (Written.interpretAll trees) =
      (Written.constructsOfAll trees).findSome? Construct.mistake? := by
  cases trees with
  | nil => rfl
  | cons first rest =>
    rw [Written.constructsOfAll, List.findSome?_append, ← failure?_interpret first,
      ← failure?_interpretAll rest]
    exact failure?_bind fun _ _ => failure?_bind_pure _ _

end

def IsBlank (trees : List Written) : Prop :=
  ∀ tree ∈ trees, ∃ raw, tree = .text raw ∧ IsBlanks raw

theorem trim_eq_nil_iff (run : Text) : trim run = [] ↔ IsBlanks run := by
  refine ⟨?_, trim_blanks⟩
  intro nothing
  obtain ⟨before, behind, shape, blanksBefore, blanksBehind, -⟩ := trim_parts run
  rw [nothing, List.nil_append] at shape
  rw [shape]
  exact isBlanks_append blanksBefore blanksBehind

/-- A piece of markup is interpreted as nothing exactly if it is a text of blanks. -/
theorem interpret_eq_none_iff {tree : Written} {piece : Option Declared}
    (interpreted : tree.interpret = .ok piece) :
    piece = none ↔ ∃ raw, tree = .text raw ∧ IsBlanks raw := by
  cases tree with
  | text raw =>
    rw [Written.interpret] at interpreted
    obtain rfl := Except.ok.inj interpreted
    simp [← trim_eq_nil_iff]
  | void tag items =>
    rw [Written.interpret] at interpreted
    obtain ⟨declarations, -, same⟩ := bind_eq_ok interpreted
    obtain rfl := Except.ok.inj same
    simp
  | paired tag items children closing =>
    rw [Written.interpret] at interpreted
    obtain ⟨declarations, -, interpretedInner⟩ := bind_eq_ok interpreted
    obtain ⟨inner, -, matching⟩ := bind_eq_ok interpretedInner
    split at matching
    · obtain rfl := Except.ok.inj matching
      simp
    · cases matching

theorem interpretAll_eq_nil_iff {trees : List Written} {forest : List Declared}
    (interpreted : Written.interpretAll trees = .ok forest) : forest = [] ↔ IsBlank trees := by
  induction trees generalizing forest with
  | nil =>
    obtain rfl := Except.ok.inj interpreted
    exact iff_of_true rfl (List.forall_mem_nil _)
  | cons tree rest ih =>
    obtain ⟨piece, others, first, later, rfl⟩ := interpretAll_cons_eq_ok interpreted
    rw [List.append_eq_nil_iff, ih later, Option.toList_eq_nil_iff, interpret_eq_none_iff first,
      IsBlank, IsBlank, List.forall_mem_cons]

structure Stretch where
  text : Text
  construct? : Option Construct

inductive CutsItems : Text → List Item → List Stretch → Prop where
  | none : CutsItems [] [] []
  | more {gap part rest : Text} {item : Item} {items : List Item} {stretches : List Stretch}
      (spaces : IsSpaces gap) (apart : gap ≠ []) (isItem : IsItem part item)
      (later : CutsItems rest items stretches) :
      CutsItems (gap ++ (part ++ rest)) (item :: items)
        (⟨gap, .none⟩ :: ⟨part, some (.item item)⟩ :: stretches)

/-- Markup, cut at the items of its tags and at its end tags. -/
inductive Cuts : Text → List Written → List Stretch → Prop where
  | nothing : Cuts [] [] []
  | text {run rest : Text} {trees : List Written} {stretches : List Stretch} (filled : run ≠ [])
      (inside : '<' ∉ run) (ends : EndsBefore (fun character => character ≠ '<') rest)
      (later : Cuts rest trees stretches) :
      Cuts (run ++ rest) (.text run :: trees) (⟨run, none⟩ :: stretches)
  | void {tag part ending rest : Text} {items : List Item} {trees : List Written}
      {inTag stretches : List Stretch} (isName : IsTagName tag) (areItems : CutsItems part items inTag)
      (isEnd : IsTagEnd ending true) (later : Cuts rest trees stretches) :
      Cuts ('<' :: (tag ++ (part ++ ending)) ++ rest) (.void tag items :: trees)
        (⟨'<' :: tag, none⟩ :: inTag ++ ⟨ending, none⟩ :: stretches)
  | paired {tag part ending body closer closing rest : Text} {items : List Item}
      {children trees : List Written} {inTag inBody stretches : List Stretch}
      (isName : IsTagName tag) (areItems : CutsItems part items inTag)
      (isEnd : IsTagEnd ending false) (inner : Cuts body children inBody)
      (isEndTag : IsEndTag closer closing) (later : Cuts rest trees stretches) :
      Cuts ('<' :: (tag ++ (part ++ ending)) ++ (body ++ ('<' :: '/' :: closer ++ rest)))
        (.paired tag items children closing :: trees)
        (⟨'<' :: tag, none⟩ :: inTag ++ ⟨ending, none⟩ :: inBody ++
          ⟨'<' :: '/' :: closer, some (.endTag tag closing)⟩ :: stretches)

section CutItems
variable {part : Text} {items : List Item} {stretches : List Stretch}

theorem CutsItems.areItems (cuts : CutsItems part items stretches) : AreItems part items := by
  induction cuts with
  | none => exact .none
  | more spaces apart isItem later ih => exact .more spaces apart isItem ih

theorem AreItems.exists_cut (areItems : AreItems part items) :
    ∃ stretches, CutsItems part items stretches := by
  induction areItems with
  | none => exact ⟨[], .none⟩
  | more spaces apart isItem later ih =>
    obtain ⟨stretches, cuts⟩ := ih
    exact ⟨_, .more spaces apart isItem cuts⟩

theorem CutsItems.texts (cuts : CutsItems part items stretches) :
    stretches.flatMap Stretch.text = part := by
  induction cuts with
  | none => rfl
  | more spaces apart isItem later ih => rw [List.flatMap_cons, List.flatMap_cons, ih]

theorem CutsItems.constructs (cuts : CutsItems part items stretches) :
    stretches.filterMap Stretch.construct? = items.map .item := by
  induction cuts with
  | none => rfl
  | more spaces apart isItem later ih => simp [ih]

end CutItems

section CutSources
variable {source : Text} {trees : List Written} {stretches : List Stretch}

theorem Cuts.spells (cuts : Cuts source trees stretches) : Spells source trees := by
  induction cuts with
  | nothing => exact .nothing
  | text filled inside ends later ih => exact .text filled inside ends ih
  | void isName areItems isEnd later ih =>
    exact .void (.spelled isName areItems.areItems isEnd) ih
  | paired isName areItems isEnd inner isEndTag later ihInner ihLater =>
    exact .paired (.spelled isName areItems.areItems isEnd) ihInner isEndTag ihLater

theorem Spells.exists_cut (spells : Spells source trees) :
    ∃ stretches, Cuts source trees stretches := by
  induction spells with
  | nothing => exact ⟨[], .nothing⟩
  | text filled inside ends later ih =>
    obtain ⟨stretches, cuts⟩ := ih
    exact ⟨_, .text filled inside ends cuts⟩
  | void isStart later ih =>
    obtain ⟨stretches, cuts⟩ := ih
    cases isStart with
    | spelled isName areItems isEnd =>
      obtain ⟨inTag, cutsItems⟩ := areItems.exists_cut
      exact ⟨_, .void isName cutsItems isEnd cuts⟩
  | paired isStart inner isEndTag later ihInner ihLater =>
    obtain ⟨inBody, cutsBody⟩ := ihInner
    obtain ⟨stretches, cuts⟩ := ihLater
    cases isStart with
    | spelled isName areItems isEnd =>
      obtain ⟨inTag, cutsItems⟩ := areItems.exists_cut
      exact ⟨_, .paired isName cutsItems isEnd cutsBody isEndTag cuts⟩

/-- The stretches are the source, one after the other. -/
theorem Cuts.texts (cuts : Cuts source trees stretches) :
    stretches.flatMap Stretch.text = source := by
  induction cuts with
  | nothing => rfl
  | text filled inside ends later ih => rw [List.flatMap_cons, ih]
  | void isName areItems isEnd later ih => simp [ih, areItems.texts]
  | paired isName areItems isEnd inner isEndTag later ihInner ihLater =>
    simp [ihInner, ihLater, areItems.texts]

/-- The stretches spell the constructs of the trees in their order. -/
theorem Cuts.constructs (cuts : Cuts source trees stretches) :
    stretches.filterMap Stretch.construct? = Written.constructsOfAll trees := by
  induction cuts with
  | nothing => rfl
  | text filled inside ends later ih =>
    simpa [List.filterMap_cons, Written.constructsOfAll, Written.constructs] using ih
  | void isName areItems isEnd later ih =>
    simp [Written.constructsOfAll, Written.constructs, ih, areItems.constructs]
  | paired isName areItems isEnd inner isEndTag later ihInner ihLater =>
    simp [Written.constructsOfAll, Written.constructs, ihInner, ihLater, areItems.constructs]

end CutSources

/-! ## The first mistake -/

def Stretch.IsRight (stretch : Stretch) : Prop :=
  ∀ construct, stretch.construct? = some construct → ∀ reason, ¬construct.IsWrong reason

def Stretch.Reports (stretch : Stretch) (reason : MarkupError) : Prop :=
  ∃ construct, stretch.construct? = some construct ∧ construct.Reports reason

def IsFirstMistake (stretches : List Stretch) (reason : MarkupError) : Prop :=
  ∃ before wrong behind, stretches = before ++ wrong :: behind ∧
    (∀ stretch ∈ before, stretch.IsRight) ∧ wrong.Reports reason

theorem Stretch.bind_mistake?_eq_some_iff (stretch : Stretch) (reason : MarkupError) :
    stretch.construct?.bind Construct.mistake? = some reason ↔ stretch.Reports reason := by
  simp only [Option.bind_eq_some_iff, Construct.mistake?_eq_some_iff, Stretch.Reports]

theorem Stretch.bind_mistake?_eq_none_iff (stretch : Stretch) :
    stretch.construct?.bind Construct.mistake? = none ↔ stretch.IsRight := by
  simp only [Option.bind_eq_none_iff, Construct.mistake?_eq_none_iff, Stretch.IsRight]

theorem Cuts.failure?_eq {source : Text} {trees : List Written} {stretches : List Stretch}
    (cuts : Cuts source trees stretches) :
    failure? (Written.interpretAll trees) =
      stretches.findSome? fun stretch => stretch.construct?.bind Construct.mistake? := by
  rw [failure?_interpretAll, ← cuts.constructs, ← List.head?_filterMap, List.filterMap_filterMap,
    List.head?_filterMap]

theorem Cuts.interpretAll_eq_error_iff {source : Text} {trees : List Written}
    {stretches : List Stretch} (cuts : Cuts source trees stretches) (reason : MarkupError) :
    Written.interpretAll trees = .error reason ↔ IsFirstMistake stretches reason := by
  rw [← failure?_eq_some_iff, cuts.failure?_eq, List.findSome?_eq_some_iff]
  simp only [Stretch.bind_mistake?_eq_some_iff, Stretch.bind_mistake?_eq_none_iff, IsFirstMistake]
  constructor
  · rintro ⟨before, wrong, behind, shape, reports, right⟩
    exact ⟨before, wrong, behind, shape, right, reports⟩
  · rintro ⟨before, wrong, behind, shape, right, reports⟩
    exact ⟨before, wrong, behind, shape, reports, right⟩

theorem Cuts.exists_interpretAll_iff {source : Text} {trees : List Written}
    {stretches : List Stretch} (cuts : Cuts source trees stretches) :
    (∃ forest, Written.interpretAll trees = .ok forest) ↔
      ∀ stretch ∈ stretches, stretch.IsRight := by
  rw [← failure?_eq_none_iff, cuts.failure?_eq, List.findSome?_eq_none_iff]
  simp only [Stretch.bind_mistake?_eq_none_iff]

theorem exists_spells_of_derives {source : Text} (derives : Derives (.rule .document) source) :
    ∃ trees, Spells source trees := by
  obtain ⟨nodes, last, rfl, inside, finished⟩ := derives_chain (derives_rule derives)
  cases finished
  rw [List.append_nil]
  exact exists_spelling nodes inside

/-- A source that can be derived can be cut at its constructs, and however it is cut, parsing reports
the first stretch that is wrong. If none is, it refuses a source of blanks as empty, and parses any
other one. -/
theorem parse_reports_first_mistake (source : Text) (derives : Derives (.rule .document) source) :
    (∃ trees stretches, Cuts source trees stretches) ∧
      ∀ trees stretches, Cuts source trees stretches →
        stretches.flatMap Stretch.text = source ∧
          (∀ reason, Markup.parse source = .error reason ↔
            IsFirstMistake stretches reason ∨
              ((∀ stretch ∈ stretches, stretch.IsRight) ∧ IsBlank trees ∧ reason = .empty)) ∧
          ((∃ markup, Markup.parse source = .ok markup) ↔
            (∀ stretch ∈ stretches, stretch.IsRight) ∧ ¬IsBlank trees) := by
  constructor
  · obtain ⟨trees, spells⟩ := exists_spells_of_derives derives
    exact ⟨trees, spells.exists_cut⟩
  intro trees stretches cuts
  refine ⟨cuts.texts, ?_⟩
  rw [← cuts.exists_interpretAll_iff, Markup.parse, read_spelling cuts.spells]
  simp only [← cuts.interpretAll_eq_error_iff]
  cases interpreted : Written.interpretAll trees with
  | error own => simp
  | ok forest =>
    rw [← interpretAll_eq_nil_iff interpreted]
    cases forest with
    | nil => simp [eq_comm]
    | cons first rest => simp

/-- The property of the inner element has no value and an unknown kind, what it binds has no value
either, and neither end tag is that of its element. -/
def mistakenSource : Text :=
  "<a k=\x27.b\x27>t<b @k .x:kind :y></B></A>".toList

theorem mistaken_source_reports_first :
    Derives (.rule .document) mistakenSource ∧
      ∃ trees stretches, Cuts mistakenSource trees stretches ∧
        IsFirstMistake stretches (.missingValue .setProperty "x:kind".toList) := by
  have derives : Derives (.rule .document) mistakenSource :=
    (toBool_readForest_iff mistakenSource).mp (by decide +kernel)
  have computed : failure? (Markup.parse mistakenSource) =
      some (.missingValue .setProperty "x:kind".toList) := by
    decide +kernel
  obtain ⟨⟨trees, stretches, cuts⟩, reports⟩ := parse_reports_first_mistake mistakenSource derives
  obtain ⟨-, fails, -⟩ := reports trees stretches cuts
  rcases (fails _).mp ((failure?_eq_some_iff _ _).mp computed) with isFirst | ⟨-, -, isEmpty⟩
  · exact ⟨derives, trees, stretches, cuts, isFirst⟩
  · cases isEmpty

end TreeTemplate.Markup
