import Mathlib.Data.List.Basic
import Mathlib.Tactic.SplitIfs
import TreeTemplate.Proofs.Placeholder.Crossing

/-!
# What the scanner accepts

The scanner accepts exactly the texts that the grammar derives. Its marks tell exactly the texts
that are one placeholder, and what it writes is the row of items with its own backticks escaped.
A text has one row of items only.
-/
set_option autoImplicit false

namespace TreeTemplate.Placeholder

def Item.Leaves : Item → List Mark → Prop
  | .escaped _, left => left = [.unmarked, .unmarked]
  | .placeholder _, left => ∃ inner, left = .start :: (inner ++ [.stop]) ∧ .start ∉ inner
  | .plain character, left => left = [if character = '$' then .start else .unmarked]

/-- What the scanner does to an item outside placeholders, with the text `rest` behind it. -/
structure Item.Passes (item : Item) (rest : Text) : Prop where
  settles : settle [] (item.source ++ rest) = settle [] rest
  writes : escapedText [] (item.source ++ rest) = item.written ++ escapedText [] rest
  leaves : ∃ left, marks [] (item.source ++ rest) = left ++ marks [] rest ∧ item.Leaves left
  whole : pieces [] [] (item.source ++ rest) = item.source :: pieces [] [] rest

theorem stepAt_backslash (rest : Text) : stepAt [] '\\' rest = .only (.push .escaped) := by
  simp [stepAt, Stack.top, transition, textAction]

theorem stepAt_opening (rest : Text) :
    stepAt [] '$' ('{' :: rest) = ⟨.push .opening, .start, false⟩ := by
  simp [stepAt, Stack.top, transition, textAction]

theorem stepAt_plain (character : Char) (rest : Text) (isPlain : IsPlain false character rest) :
    stepAt [] character rest =
      ⟨.keep, if character = '$' then .start else .unmarked, decide (character = '\x60')⟩ := by
  obtain ⟨backslash, dollar, -⟩ := isPlain
  by_cases backtick : character = '\x60'
  · subst backtick
    simp [stepAt, Stack.top, transition]
  · by_cases isDollar : character = '$'
    · subst isDollar
      simp at dollar
      simp [stepAt, Stack.top, transition, textAction, dollar]
    · simp [stepAt, Stack.top, transition, textAction, Step.only, backtick, isDollar, backslash]

theorem passes_escaped (character : Char) (rest : Text) : (Item.escaped character).Passes rest := by
  have first := stepAt_backslash (character :: rest)
  have second : stepAt [.escaped] character rest = .only .pop := rfl
  refine ⟨?_, ?_, ⟨[.unmarked, .unmarked], ?_, rfl⟩, ?_⟩
  · simp [Item.source, settle_cons, first, second, Step.only, Action.apply]
  · simp [Item.source, Item.written, escapedText, first, second, Step.only, Action.apply]
  · simp [Item.source, marks_cons, first, second, Step.only, Action.apply]
  · simp [Item.source, pieces, first, second, Step.only, Action.apply]

theorem passes_plain (character : Char) (rest : Text) (isPlain : IsPlain false character rest) :
    (Item.plain character).Passes rest := by
  have only := stepAt_plain character rest isPlain
  refine ⟨?_, ?_, ⟨[if character = '$' then .start else .unmarked], ?_, rfl⟩, ?_⟩
  · simp [Item.source, settle_cons, only, Action.apply]
  · by_cases backtick : character = '\x60'
    · subst backtick
      simp [Item.source, Item.written, escapedText, only, Action.apply]
    · simp [Item.source, Item.written, escapedText, only, Action.apply, backtick]
  · simp [Item.source, marks_cons, only, Action.apply]
  · simp [Item.source, pieces, only, Action.apply]

theorem passes_placeholder (body rest : Text) (inside : Derives .expression body) :
    (Item.placeholder body).Passes rest := by
  have first := stepAt_opening (body ++ '}' :: rest)
  have last : stepAt [.expression] '}' rest = ⟨.pop, .stop, false⟩ := rfl
  have crossed := inside.crosses [] ('}' :: rest) (by simp) (by simp)
  have opened : Crosses ('}' :: rest) [.opening] ('{' :: body) [.expression] :=
    Crosses.cons '{' (by simp) rfl crossed
  have source : (Item.placeholder body).source ++ rest = '$' :: (('{' :: body) ++ '}' :: rest) := by
    simp [Item.source]
  obtain ⟨inner, innerExact, startless⟩ := opened.startless
  refine ⟨?_, ?_, ⟨.start :: (inner ++ [.stop]), ?_, inner, rfl, startless⟩, ?_⟩
  · rw [source, settle_cons, List.cons_append, first]
    exact opened.settles
  · rw [source, escapedText_cons [] '$' _ (by rw [List.cons_append, first]), List.cons_append, first]
    have written := opened.writes
    rw [List.cons_append, escapedText_cons [.expression] '}' rest (by rw [last]), last] at written
    simp only [Action.apply, written, Item.written, Item.source]
    simp
  · rw [source, marks_cons, List.cons_append, first]
    rw [List.cons_append, marks_cons [.expression], last] at innerExact
    simp only [Action.apply, innerExact]
    simp
  · have read := opened.whole ['$']
    have done := pieces_cons_done (by rw [last]; rfl) ('$' :: '{' :: body)
    rw [List.cons_append] at read
    rw [source, List.cons_append, pieces_cons_inside (by rw [first]; rfl), List.nil_append, read]
    exact done

theorem Item.passes (item : Item) (rest : Text) (fits : item.Fits false rest) : item.Passes rest := by
  cases item with
  | escaped character => exact passes_escaped character rest
  | placeholder body => exact passes_placeholder body rest fits
  | plain character => exact passes_plain character rest fits

theorem settle_row (items : List Item) (row : IsRow false items) : settle [] (sources items) = [] := by
  induction items with
  | nil => rfl
  | cons item rest ih =>
    have passes := item.passes (sources rest) row.1
    rw [sources_cons, passes.settles]
    exact ih row.2

theorem escapedText_row (items : List Item) (row : IsRow false items) :
    escapedText [] (sources items) = writtenRow items := by
  induction items with
  | nil => rfl
  | cons item rest ih =>
    have passes := item.passes (sources rest) row.1
    rw [sources_cons, passes.writes, ih row.2, writtenRow_cons]

theorem pieces_row (items : List Item) (row : IsRow false items) :
    pieces [] [] (sources items) = items.map Item.source := by
  induction items with
  | nil => rfl
  | cons item rest ih =>
    have passes := item.passes (sources rest) row.1
    rw [sources_cons, passes.whole, ih row.2, List.map_cons]

/-- The grammar is unambiguous at the top level. -/
theorem isRow_unique (left right : List Item) (leftRow : IsRow false left)
    (rightRow : IsRow false right) (same : sources left = sources right) : left = right := by
  have pieceByPiece : left.map Item.source = right.map Item.source := by
    rw [← pieces_row left leftRow, ← pieces_row right rightRow, same]
  exact (List.map_inj_right source_injective).mp pieceByPiece

theorem marks_cons_row (item : Item) (rest : List Item) (row : IsRow false (item :: rest)) :
    ∃ left, marks [] (sources (item :: rest)) = left ++ marks [] (sources rest) ∧
      item.Leaves left :=
  (item.passes (sources rest) row.1).leaves

/-- Without a start there is no stop either. -/
theorem stopless_row (items : List Item) (row : IsRow false items)
    (startless : Mark.start ∉ marks [] (sources items)) :
    Mark.stop ∉ marks [] (sources items) := by
  induction items with
  | nil => simp [marks, steps]
  | cons item rest ih =>
    obtain ⟨left, joined, leaves⟩ := marks_cons_row item rest row
    rw [joined, List.mem_append, not_or] at startless
    have later := ih row.2 startless.2
    rw [joined, List.mem_append, not_or]
    refine ⟨?_, later⟩
    cases item with
    | escaped character =>
      subst leaves
      simp
    | placeholder body =>
      obtain ⟨inner, same, -⟩ := leaves
      exact absurd (by simp [same]) startless.1
    | plain character =>
      subst leaves
      split <;> simp

theorem isSinglePlaceholder_start (rest : List Mark) :
    isSinglePlaceholder (.start :: rest) = true ↔ Mark.start ∉ rest ∧ rest.getLast? = some .stop := by
  simp [isSinglePlaceholder]

/-- The last start is the first character and the last stop is the last one only where a placeholder
fills the text: after a dollar sign that opens nothing no stop can follow without another start. -/
theorem isSinglePlaceholder_row (items : List Item) (row : IsRow false items) :
    isSinglePlaceholder (marks [] (sources items)) = true ↔ ∃ body, items = [.placeholder body] := by
  cases items with
  | nil => simp [marks, steps, isSinglePlaceholder]
  | cons item rest =>
    obtain ⟨left, joined, leaves⟩ := marks_cons_row item rest row
    rw [joined]
    cases item with
    | escaped character =>
      subst leaves
      simp [isSinglePlaceholder]
    | plain character =>
      subst leaves
      by_cases dollar : character = '$'
      · rw [if_pos dollar, List.singleton_append, isSinglePlaceholder_start]
        simp only [List.cons.injEq, reduceCtorEq, false_and, exists_false, iff_false, not_and]
        intro startless last
        have stopless := stopless_row rest row.2 startless
        exact stopless (List.mem_of_getLast? last)
      · simp [isSinglePlaceholder, dollar]
    | placeholder body =>
      obtain ⟨inner, rfl, startless⟩ := leaves
      rw [List.cons_append, isSinglePlaceholder_start]
      constructor
      · rintro ⟨noStart, last⟩
        have restStartless : Mark.start ∉ marks [] (sources rest) := by
          intro member
          exact noStart (List.mem_append_right _ member)
        have stopless := stopless_row rest row.2 restStartless
        cases behind : marks [] (sources rest) with
        | nil =>
          cases rest with
          | nil => exact ⟨body, rfl⟩
          | cons next later =>
            obtain ⟨nextLeft, nextExact, nextLeaves⟩ := marks_cons_row next later row.2
            rw [nextExact] at behind
            obtain ⟨rfl, -⟩ := List.append_eq_nil_iff.mp behind
            cases next <;> simp [Item.Leaves] at nextLeaves
        | cons mark later =>
          have lastBehind : (mark :: later).getLast? = some .stop := by
            rw [behind] at last
            rwa [List.getLast?_append_of_ne_nil _ (by simp)] at last
          rw [behind] at stopless
          exact absurd (List.mem_of_getLast? lastBehind) stopless
      · rintro ⟨only, same⟩
        obtain rfl : rest = [] := (List.cons.inj same).2
        simp [startless, marks, steps]

/-! ## From the scanner to the grammar -/

def Begins (form : Form) (after : Text → Prop) (text : Text) : Prop :=
  ∃ part rest, text = part ++ rest ∧ Derives form part ∧ after rest

/-- The text closes the contexts of the stack one after the other and goes on as a row of items. -/
def Unwinds : Stack → Text → Prop
  | [], text => Begins (.items false) (fun rest => rest = []) text
  | .plain :: _, _ => False
  | .escaped :: stack, text => ∃ character rest, text = character :: rest ∧ Unwinds stack rest
  | .doubleQuoted :: stack, text =>
    ∃ run rest, '\x22' ∉ run ∧ text = run ++ '\x22' :: rest ∧ Unwinds stack rest
  | .singleQuoted :: stack, text =>
    ∃ run rest, '\x27' ∉ run ∧ text = run ++ '\x27' :: rest ∧ Unwinds stack rest
  | .opening :: stack, text =>
    ∃ character rest, text = character :: rest ∧
      Begins .expression (fun later => ∃ tail, later = '}' :: tail ∧ Unwinds stack tail) rest
  | .expression :: stack, text =>
    Begins .expression (fun later => ∃ tail, later = '}' :: tail ∧ Unwinds stack tail) text
  | .template :: stack, text =>
    Begins (.items true) (fun later => ∃ tail, later = '\x60' :: tail ∧ Unwinds stack tail) text

section Begins
variable {nested : Bool} {after : Text → Prop}

theorem Begins.nil {form : Form} {text : Text} (holds : after text) : Begins form after text :=
  ⟨[], text, rfl, Derives.empty form, holds⟩

theorem Begins.escaped {rest : Text} (character : Char)
    (later : Begins (.items nested) after rest) :
    Begins (.items nested) after ('\\' :: character :: rest) := by
  obtain ⟨part, tail, rfl, derivation, holds⟩ := later
  exact ⟨_, tail, rfl, Derives.escaped character derivation, holds⟩

theorem Begins.placeholder {body rest : Text} (inside : Derives .expression body)
    (later : Begins (.items nested) after rest) :
    Begins (.items nested) after ('$' :: '{' :: (body ++ '}' :: rest)) := by
  obtain ⟨part, tail, rfl, derivation, holds⟩ := later
  exact ⟨_, tail, by simp, Derives.placeholder inside derivation, holds⟩

theorem Begins.plain {character : Char} {rest : Text} (isPlain : IsPlain nested character rest)
    (later : Begins (.items nested) after rest) :
    Begins (.items nested) after (character :: rest) := by
  obtain ⟨part, tail, rfl, derivation, holds⟩ := later
  obtain ⟨backslash, dollar, backtick⟩ := isPlain
  have partPlain : IsPlain nested character part := by
    refine ⟨backslash, ?_, backtick⟩
    rintro ⟨same, next⟩
    exact dollar ⟨same, by simp [List.head?_append, next]⟩
  exact ⟨_, tail, rfl, Derives.plain partPlain derivation, holds⟩

theorem Begins.bare {character : Char} {rest : Text} (isBare : IsBare character)
    (later : Begins .expression after rest) :
    Begins .expression after (character :: rest) := by
  obtain ⟨part, tail, rfl, derivation, holds⟩ := later
  exact ⟨_, tail, rfl, Derives.bare isBare derivation, holds⟩

theorem Begins.quoted {quote : Char} {run rest : Text} (isQuote : IsQuote quote)
    (inside : quote ∉ run) (later : Begins .expression after rest) :
    Begins .expression after (quote :: (run ++ quote :: rest)) := by
  obtain ⟨part, tail, rfl, derivation, holds⟩ := later
  exact ⟨_, tail, by simp, Derives.quoted isQuote inside derivation, holds⟩

theorem Begins.braces {body rest : Text} (inside : Derives .expression body)
    (later : Begins .expression after rest) :
    Begins .expression after ('{' :: (body ++ '}' :: rest)) := by
  obtain ⟨part, tail, rfl, derivation, holds⟩ := later
  exact ⟨_, tail, by simp, Derives.braces inside derivation, holds⟩

theorem Begins.template {body rest : Text} (inside : Derives (.items true) body)
    (later : Begins .expression after rest) :
    Begins .expression after ('\x60' :: (body ++ '\x60' :: rest)) := by
  obtain ⟨part, tail, rfl, derivation, holds⟩ := later
  exact ⟨_, tail, by simp, Derives.template inside derivation, holds⟩

end Begins

/-- One step back in a row of items, in the plain context and between backticks alike. -/
theorem unwinds_text {nested : Bool} {after : Text → Prop} (stack : Stack) (character : Char)
    (rest : Text) (row : ∀ text, Unwinds stack text ↔ Begins (.items nested) after text)
    (allowed : nested = true → character ≠ '\x60')
    (later : Unwinds ((textAction character rest.head?).apply stack) rest) :
    Unwinds stack (character :: rest) := by
  rw [row]
  by_cases opens : character = '$' ∧ rest.head? = some '{'
  · rw [textAction, if_pos opens] at later
    obtain ⟨brace, behind, rfl, body, tail, rfl, inside, close, rfl, unwinds⟩ := later
    obtain ⟨rfl, next⟩ := opens
    obtain rfl : brace = '{' := by simpa using next
    exact Begins.placeholder inside ((row _).mp unwinds)
  · by_cases backslash : character = '\\'
    · rw [textAction, if_neg opens, if_pos backslash] at later
      obtain ⟨escaped, behind, rfl, unwinds⟩ := later
      rw [backslash]
      exact Begins.escaped escaped ((row _).mp unwinds)
    · rw [textAction, if_neg opens, if_neg backslash] at later
      exact Begins.plain ⟨backslash, opens, allowed⟩ ((row _).mp later)

theorem unwinds_expression (stack : Stack) (character : Char) (rest : Text)
    (later : Unwinds ((expressionStep character).action.apply (.expression :: stack)) rest) :
    Unwinds (.expression :: stack) (character :: rest) := by
  by_cases double : character = '\x22'
  · subst double
    obtain ⟨run, behind, inside, rfl, unwinds⟩ := later
    exact Begins.quoted (Or.inl rfl) inside unwinds
  by_cases single : character = '\x27'
  · subst single
    obtain ⟨run, behind, inside, rfl, unwinds⟩ := later
    exact Begins.quoted (Or.inr rfl) inside unwinds
  by_cases backtick : character = '\x60'
  · subst backtick
    obtain ⟨body, tail, rfl, inside, close, rfl, unwinds⟩ := later
    exact Begins.template inside unwinds
  by_cases opening : character = '{'
  · subst opening
    obtain ⟨body, tail, rfl, inside, close, rfl, unwinds⟩ := later
    exact Begins.braces inside unwinds
  by_cases closing : character = '}'
  · subst closing
    exact Begins.nil ⟨rest, rfl, later⟩
  · have isBare : IsBare character := ⟨double, single, backtick, opening, closing⟩
    rw [expressionStep_bare character isBare] at later
    exact Begins.bare isBare later

theorem transition_plain_action (character : Char) (next : Option Char) :
    (transition .plain character next).action = textAction character next := by
  unfold transition
  by_cases backtick : character = '\x60'
  · subst backtick
    rfl
  · rw [if_neg backtick]
    split_ifs <;> rfl

/-- One step back: what a step does to the stack is undone in the grammar. -/
theorem unwinds_step (stack : Stack) (character : Char) (rest : Text)
    (later : Unwinds ((stepAt stack character rest).action.apply stack) rest) :
    Unwinds stack (character :: rest) := by
  cases stack with
  | nil =>
    refine unwinds_text [] character rest (fun _ => Iff.rfl) (by simp) ?_
    rwa [stepAt, Stack.top, transition_plain_action] at later
  | cons context stack =>
    cases context with
    | plain =>
      -- A plain context is never left, so that nothing closes it.
      have never (text : Text) :
          Unwinds (.plain :: stack) text ↔ Begins (.items false) (fun _ => False) text := by
        constructor
        · exact False.elim
        · rintro ⟨part, behind, _, _, absurd⟩
          exact absurd
      refine unwinds_text (.plain :: stack) character rest never (by simp) ?_
      rwa [stepAt, Stack.top, transition_plain_action] at later
    | escaped => exact ⟨character, rest, rfl, later⟩
    | opening => exact ⟨character, rest, rfl, later⟩
    | expression => exact unwinds_expression stack character rest later
    | template =>
      by_cases backtick : character = '\x60'
      · subst backtick
        exact Begins.nil ⟨rest, rfl, later⟩
      · refine unwinds_text (.template :: stack) character rest (fun _ => Iff.rfl)
          (fun _ => backtick) ?_
        simpa [stepAt, Stack.top, transition, backtick, Step.only] using later
    | doubleQuoted =>
      by_cases quote : character = '\x22'
      · subst quote
        exact ⟨[], rest, by simp, rfl, later⟩
      · have kept : Unwinds (.doubleQuoted :: stack) rest := by
          simpa [stepAt, Stack.top, transition, quote, Step.only, Action.apply] using later
        obtain ⟨run, behind, inside, rfl, unwinds⟩ := kept
        exact ⟨character :: run, behind, by simp [inside, Ne.symm quote], rfl, unwinds⟩
    | singleQuoted =>
      by_cases quote : character = '\x27'
      · subst quote
        exact ⟨[], rest, by simp, rfl, later⟩
      · have kept : Unwinds (.singleQuoted :: stack) rest := by
          simpa [stepAt, Stack.top, transition, quote, Step.only, Action.apply] using later
        obtain ⟨run, behind, inside, rfl, unwinds⟩ := kept
        exact ⟨character :: run, behind, by simp [inside, Ne.symm quote], rfl, unwinds⟩

theorem unwinds_of_settle (stack : Stack) (text : Text) (settled : settle stack text = []) :
    Unwinds stack text := by
  induction text generalizing stack with
  | nil =>
    obtain rfl : stack = [] := settled
    exact Begins.nil rfl
  | cons character rest ih => exact unwinds_step stack character rest (ih _ settled)

/-- The scanner settles on exactly the texts of the grammar. -/
theorem isBalanced_iff (text : Text) : isBalanced text = true ↔ Derives (.items false) text := by
  rw [isBalanced, decide_eq_true_iff]
  constructor
  · intro settled
    obtain ⟨part, rest, rfl, derivation, rfl⟩ := unwinds_of_settle [] text settled
    simpa using derivation
  · intro derivation
    obtain ⟨items, row, rfl⟩ := isRow_of_derives false text derivation
    exact settle_row items row

theorem isPlaceholder_sources_iff (items : List Item) (row : IsRow false items) :
    IsPlaceholder (sources items) ↔ ∃ body, items = [.placeholder body] := by
  constructor
  · rintro ⟨body, inside, same⟩
    refine ⟨body, isRow_unique items [.placeholder body] row ⟨inside, trivial⟩ ?_⟩
    simpa [Item.source] using same
  · rintro ⟨body, rfl⟩
    exact ⟨body, row.1, by simp [Item.source]⟩

theorem isSinglePlaceholder_iff (text : Text) (derivation : Derives (.items false) text) :
    isSinglePlaceholder (marks [] text) = true ↔ IsPlaceholder text := by
  obtain ⟨items, row, rfl⟩ := isRow_of_derives false text derivation
  rw [isSinglePlaceholder_row items row, isPlaceholder_sources_iff items row]

theorem enclose?_eq_none_iff (opening closing text : Text) :
    enclose? opening closing text = none ↔ ¬Derives (.items false) text := by
  rw [← isBalanced_iff, enclose?]
  split_ifs with balanced <;> simp [balanced]

theorem enclose?_placeholder (opening closing text : Text) (isPlaceholder : IsPlaceholder text) :
    enclose? opening closing text = some text := by
  obtain ⟨body, inside, rfl⟩ := isPlaceholder
  have row : IsRow false [.placeholder body] := ⟨inside, trivial⟩
  have source : sources [.placeholder body] = '$' :: '{' :: (body ++ ['}']) := by
    simp [Item.source]
  have derivation := derives_of_isRow false _ row
  have balanced := (isBalanced_iff _).mpr derivation
  have single := (isSinglePlaceholder_iff _ derivation).mpr ⟨body, inside, source⟩
  have written := escapedText_row _ row
  rw [source] at balanced single written
  rw [marks] at single
  rw [enclose?, if_pos balanced, if_pos single, written]
  simp [Item.written, Item.source]

theorem enclose?_mixed (opening closing : Text) (items : List Item) (row : IsRow false items)
    (mixed : ¬IsPlaceholder (sources items)) :
    enclose? opening closing (sources items) = some (opening ++ writtenRow items ++ closing) := by
  have derivation := derives_of_isRow false items row
  have balanced := (isBalanced_iff _).mpr derivation
  have notSingle := mt (isSinglePlaceholder_iff _ derivation).mp mixed
  rw [marks] at notSingle
  rw [enclose?, if_pos balanced, if_neg notSingle, escapedText_row items row]

/-- A text is accepted exactly if the grammar derives it. One placeholder is kept as it is, and all
other text is put between the delimiters with the backticks escaped that are items of its row. The
marks of the scanner decide which of the two it is. -/
theorem enclosing_follows_grammar (opening closing text : Text) :
    ((enclose? opening closing text).isSome = true ↔ Derives (.items false) text) ∧
      (∀ result, enclose? opening closing text = some result ↔
        (IsPlaceholder text ∧ result = text) ∨
          (¬IsPlaceholder text ∧ ∃ items, IsRow false items ∧ sources items = text ∧
            result = opening ++ writtenRow items ++ closing)) ∧
      (Derives (.items false) text →
        (isSinglePlaceholder ((steps [] text).map Step.mark) = true ↔ IsPlaceholder text)) := by
  have accepted : (enclose? opening closing text).isSome = true ↔ Derives (.items false) text := by
    rw [Option.isSome_iff_ne_none, ne_eq, enclose?_eq_none_iff, not_not]
  refine ⟨accepted, ?_, isSinglePlaceholder_iff text⟩
  intro result
  constructor
  · intro success
    obtain ⟨items, row, rfl⟩ :=
      isRow_of_derives false text (accepted.mp (by rw [success]; rfl))
    by_cases isPlaceholder : IsPlaceholder (sources items)
    · rw [enclose?_placeholder _ _ _ isPlaceholder] at success
      exact Or.inl ⟨isPlaceholder, (Option.some.inj success).symm⟩
    · rw [enclose?_mixed _ _ items row isPlaceholder] at success
      exact Or.inr ⟨isPlaceholder, items, row, rfl, (Option.some.inj success).symm⟩
  · rintro (⟨isPlaceholder, rfl⟩ | ⟨mixed, items, row, rfl, rfl⟩)
    · exact enclose?_placeholder _ _ _ isPlaceholder
    · exact enclose?_mixed _ _ items row mixed

end TreeTemplate.Placeholder
