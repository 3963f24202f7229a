import TreeTemplate.Proofs.Markup.Acceptance
import TreeTemplate.Proofs.Markup.Layout

/-!
# Interpreting a layout

Whatever is parsed was laid out: the items of a tag, the runs between tags and the trees are each
traced back from what they are interpreted as. Parsing and layouts thus describe the same sources,
and the forest of a source is the only one that it lays out.
-/
set_option autoImplicit false

namespace TreeTemplate.Markup

open Text

/-- A chain of two steps succeeds with what its second step makes of the first one's answer. -/
theorem bind_eq_ok {ε α β : Type} {first : Except ε α} {next : α → Except ε β} {answer : β}
    (success : first >>= next = .ok answer) :
    ∃ middle, first = .ok middle ∧ next middle = .ok answer := by
  cases first with
  | error reason => cases success
  | ok middle => exact ⟨middle, rfl, success⟩

theorem readMode_eq_ok {value : Text} {enabled : Bool} (read : readMode value = .ok enabled) :
    value = modeText enabled := by
  rw [readMode] at read
  split at read
  · rename_i isOn
    rw [isOn, ← Except.ok.inj read]
    rfl
  · split at read
    · rename_i isOff
      rw [isOff, ← Except.ok.inj read]
      rfl
    · cases read

/-- A name with a colon has the name of a property before the first one. -/
theorem isItemName_untyped {name kind : Text} (isName : IsItemName (name ++ ':' :: kind)) :
    IsItemName name := by
  obtain ⟨first, others, shape, starts, continues⟩ := isName
  cases name with
  | nil =>
    obtain ⟨rfl, -⟩ := List.cons.inj shape
    exact absurd rfl (startsItemName_apart starts).2.2.1
  | cons head tail =>
    obtain ⟨rfl, rfl⟩ := List.cons.inj shape
    exact ⟨head, tail, rfl, starts, (List.forall_mem_append.mp continues).1⟩

theorem declares_property {name part value : Text} {declaration : Declaration}
    (isName : IsItemName name) (assigns : Assigns part value)
    (declared : (typedValue (splitKind name).1 (splitKind name).2 value >>= fun typed =>
      pure (.setProperty (splitKind name).1 typed)) = .ok declaration) :
    DeclaresItem ('.' :: (name ++ part)) declaration := by
  by_cases colon : ':' ∈ name
  · obtain ⟨own, kind, rfl, plain⟩ := List.eq_append_cons_of_mem colon
    rw [splitKind_typed plain] at declared
    obtain ⟨typed, reads, same⟩ := bind_eq_ok declared
    obtain rfl := Except.ok.inj same
    have hasKind := (typedValue_eq_ok_iff own kind value typed).mp reads
    rw [List.append_assoc, List.cons_append]
    exact .typedProperty (isItemName_untyped isName) plain hasKind assigns
  · rw [splitKind_plain colon] at declared
    obtain rfl := Except.ok.inj declared
    exact .property isName colon assigns

theorem IsItem.declares {part : Text} {item : Item} {declaration : Declaration}
    (isItem : IsItem part item) (declared : item.declare = .ok declaration) :
    DeclaresItem part declaration := by
  cases isItem with
  | @flag name sigil isName =>
    cases sigil with
    | bare =>
      rw [Item.declare] at declared
      dsimp only at declared
      split at declared
      · cases declared
      · rename_i literal
        obtain rfl := Except.ok.inj declared
        exact .flag isName literal
    | listen =>
      obtain rfl := Except.ok.inj declared
      exact .listen isName
    | bindAttribute => cases declared
    | bindProperty => cases declared
    | setProperty => cases declared
  | @assigned name part raw sigil isName isAssignment =>
    have assigns : Assigns part (decodeEntities raw) := ⟨raw, isAssignment, isEncoded_decoded raw⟩
    cases sigil with
    | bare =>
      rw [Item.declare] at declared
      dsimp only at declared
      split at declared
      · rename_i isMode
        obtain ⟨_, needed, declaredValue⟩ := bind_eq_ok declared
        obtain rfl := Except.ok.inj needed
        obtain ⟨enabled, reads, same⟩ := bind_eq_ok declaredValue
        obtain rfl := Except.ok.inj same
        rw [readMode_eq_ok reads] at assigns
        rw [isMode]
        exact .interpolate enabled assigns
      · rename_i literal
        obtain rfl := Except.ok.inj declared
        exact .setAttribute isName literal assigns
    | listen =>
      obtain rfl := Except.ok.inj declared
      exact .listenWith isName assigns
    | bindAttribute =>
      obtain rfl := Except.ok.inj declared
      exact .bindAttribute isName assigns
    | bindProperty =>
      obtain rfl := Except.ok.inj declared
      exact .bindProperty isName assigns
    | setProperty =>
      obtain ⟨_, needed, declaredValue⟩ := bind_eq_ok declared
      obtain rfl := Except.ok.inj needed
      change DeclaresItem ('.' :: (name ++ part)) declaration
      exact declares_property isName assigns declaredValue

theorem AreItems.declares {part : Text} {items : List Item} {declarations : List Declaration}
    (areItems : AreItems part items) (declared : Item.declareAll items = .ok declarations) :
    DeclaresItems part declarations := by
  induction areItems generalizing declarations with
  | none =>
    obtain rfl := Except.ok.inj declared
    exact .none
  | more spaces apart isItem later ih =>
    rw [Item.declareAll] at declared
    obtain ⟨declaration, first, declaredLater⟩ := bind_eq_ok declared
    obtain ⟨others, rest, same⟩ := bind_eq_ok declaredLater
    obtain rfl := Except.ok.inj same
    exact .more spaces apart (isItem.declares first) (ih rest)

/-- A run up to a tag is blank, or is a text with blanks around it. -/
theorem pending_of_interpret {run : Text} {piece : Option Declared} (noBracket : '<' ∉ run)
    (interpreted : (Written.text run).interpret = .ok piece) : Pending run piece.toList := by
  obtain ⟨before, behind, shape, blanksBefore, blanksBehind, trimmed⟩ := trim_parts run
  rw [Written.interpret] at interpreted
  obtain rfl := Except.ok.inj interpreted
  split
  · rename_i isEmpty
    rw [List.isEmpty_iff.mp isEmpty, List.nil_append] at shape
    rw [shape]
    exact .blank (isBlanks_append blanksBefore blanksBehind)
  · rename_i filled
    have encoded := isEncoded_decoded (trim run)
    have trimmedContent := encoded.isTrimmed_iff.mp (trimmed (by simpa using filled))
    have inside : '<' ∉ trim run := by
      intro member
      refine noBracket ?_
      rw [shape]
      simp [member]
    have text := Pending.text blanksBefore encoded inside trimmedContent blanksBehind
    rw [← shape] at text
    exact text

theorem Pending.of_empty {declared : List Declared} (pending : Pending [] declared) :
    declared = [] := by
  generalize nothing : ([] : Text) = run at pending
  cases pending with
  | blank blanks => rfl
  | text blanksBefore encoded noBracket trimmed blanksBehind =>
    obtain ⟨-, same⟩ := List.append_eq_nil_iff.mp nothing.symm
    obtain ⟨rfl, -⟩ := List.append_eq_nil_iff.mp same
    exact absurd (encoded.nil_iff.mp rfl) trimmed.filled

/-- Where a layout begins with a tag, its first run is empty. -/
theorem Pending.of_ends {run rest : Text} {declared : List Declared} (pending : Pending run declared)
    (ends : EndsBefore (fun character => character ≠ '<') (run ++ rest)) :
    run = [] ∧ declared = [] := by
  cases run with
  | nil => exact ⟨rfl, pending.of_empty⟩
  | cons first others =>
    have isBracket : first = '<' := by simpa using ends first rfl
    exact absurd (isBracket ▸ List.mem_cons_self) pending.noBracket

theorem LaysOut.behind {run rest : Text} {first later : List Declared} (pending : Pending run first)
    (ends : EndsBefore (fun character => character ≠ '<') rest) (laysOut : LaysOut rest later) :
    LaysOut (run ++ rest) (first ++ later) := by
  cases laysOut with
  | last nothing =>
    obtain ⟨rfl, rfl⟩ := nothing.of_ends (by rwa [List.append_nil])
    rw [List.append_nil, List.append_nil]
    exact .last pending
  | void nothing isName declares spaces behind =>
    obtain ⟨rfl, rfl⟩ := nothing.of_ends ends
    exact .void pending isName declares spaces behind
  | paired nothing isName declares spaces inside spacesEnding behind =>
    obtain ⟨rfl, rfl⟩ := nothing.of_ends ends
    exact .paired pending isName declares spaces inside spacesEnding behind

theorem interpretAll_cons_eq_ok {tree : Written} {trees : List Written} {forest : List Declared}
    (interpreted : Written.interpretAll (tree :: trees) = .ok forest) :
    ∃ piece others, tree.interpret = .ok piece ∧ Written.interpretAll trees = .ok others ∧
      forest = piece.toList ++ others := by
  rw [Written.interpretAll] at interpreted
  obtain ⟨piece, first, interpretedLater⟩ := bind_eq_ok interpreted
  obtain ⟨others, rest, same⟩ := bind_eq_ok interpretedLater
  exact ⟨piece, others, first, rest, (Except.ok.inj same).symm⟩

theorem laysOut_of_spells {source : Text} {trees : List Written} {forest : List Declared}
    (spells : Spells source trees) (interpreted : Written.interpretAll trees = .ok forest) :
    LaysOut source forest := by
  have nothing : Pending [] [] := .blank (List.forall_mem_nil _)
  induction spells generalizing forest with
  | nothing =>
    obtain rfl := Except.ok.inj interpreted
    exact .last nothing
  | text filled noBracket ends later ih =>
    obtain ⟨piece, others, first, rest, rfl⟩ := interpretAll_cons_eq_ok interpreted
    exact (ih rest).behind (pending_of_interpret noBracket first) ends
  | void isStart later ih =>
    obtain ⟨piece, others, first, rest, rfl⟩ := interpretAll_cons_eq_ok interpreted
    rw [Written.interpret] at first
    obtain ⟨declarations, declared, same⟩ := bind_eq_ok first
    obtain rfl := Except.ok.inj same
    cases isStart with
    | spelled isName areItems isEnd =>
      cases isEnd with
      | closing spaces =>
        have whole := LaysOut.void nothing isName (areItems.declares declared) spaces (ih rest)
        simpa using whole
  | paired isStart inner isEnd later ihInner ihLater =>
    obtain ⟨piece, others, first, rest, rfl⟩ := interpretAll_cons_eq_ok interpreted
    rw [Written.interpret] at first
    obtain ⟨declarations, declared, interpretedInner⟩ := bind_eq_ok first
    obtain ⟨children, inside, matching⟩ := bind_eq_ok interpretedInner
    split at matching
    · rename_i sameTag
      obtain rfl := Except.ok.inj matching
      subst sameTag
      cases isStart with
      | spelled isName areItems isTagEnd =>
        cases isTagEnd with
        | opening spaces =>
          cases isEnd with
          | spelled _ spacesEnding =>
            have whole := LaysOut.paired nothing isName (areItems.declares declared) spaces
              (ihInner inside) spacesEnding (ihLater rest)
            simpa using whole
    · cases matching

theorem LaysOut.functional {source : Text} {left right : List Declared}
    (first : LaysOut source left) (second : LaysOut source right) : left = right := by
  obtain ⟨trees, spells, interpreted⟩ := first.declares
  obtain ⟨others, spellsOthers, interpretedOthers⟩ := second.declares
  have same := Except.ok.inj ((read_spelling spells).symm.trans (read_spelling spellsOthers))
  rw [← same] at interpretedOthers
  exact Except.ok.inj (interpreted.symm.trans interpretedOthers)

theorem exists_spells {source : Text} {trees : List Written} (reads : read source = .ok trees) :
    Spells source trees := by
  have accepted : (readForest [] [] source).toBool = true := by
    rw [read] at reads
    cases forest : readForest [] [] source with
    | error stuck =>
      rw [forest] at reads
      cases reads
    | ok trees => rfl
  obtain ⟨nodes, last, rfl, inside, finished⟩ :=
    derives_chain (derives_rule ((toBool_readForest_iff source).mp accepted))
  cases finished
  rw [List.append_nil] at reads ⊢
  obtain ⟨others, spells⟩ := exists_spelling nodes inside
  have same := (read_spelling spells).symm.trans reads
  rwa [Except.ok.inj same] at spells

/-- A source is parsed exactly if it lays out some forest, which is the one that is parsed. -/
theorem parse_eq_ok_iff (source : Text) (markup : Markup) :
    Markup.parse source = .ok markup ↔
      ∃ forest, LaysOut source forest ∧ forest ≠ [] ∧ markup = Markup.ofDeclared forest := by
  constructor
  · intro parsed
    rw [Markup.parse] at parsed
    split at parsed
    · cases parsed
    · rename_i trees reads
      split at parsed
      · cases parsed
      · cases parsed
      · rename_i forest filled interpreted
        exact ⟨forest, laysOut_of_spells (exists_spells reads) interpreted, filled,
          (Except.ok.inj parsed).symm⟩
  · rintro ⟨forest, laysOut, filled, rfl⟩
    exact parse_of_declares laysOut.declares filled

end TreeTemplate.Markup
