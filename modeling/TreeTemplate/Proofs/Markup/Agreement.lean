import TreeTemplate.Proofs.Markup.Wholeness

/-!
# Two readings of an argument list

The scanner of placeholders reads an argument list with a stack of contexts; splitting reads it with
a number of brackets and one quote. The two agree where no backtick stands between the two of a
template: a source that is whole falls into arguments that are whole. Otherwise they need not:
splitting takes a backtick for the end of a template also behind a backslash, and in a placeholder of
the template.
-/
set_option autoImplicit false

namespace TreeTemplate.Markup

open Placeholder Nesting Place

def IsFlat : Stack → Text → Prop
  | _, [] => True
  | stack, character :: rest =>
    (character = '\x60' → .template ∈ stack → stack.top = .template) ∧
      IsFlat ((stepAt stack character rest).action.apply stack) rest

instance decidableIsFlat : ∀ (stack : Stack) (text : Text), Decidable (IsFlat stack text)
  | _, [] => inferInstanceAs (Decidable True)
  | stack, character :: rest =>
    have := decidableIsFlat ((stepAt stack character rest).action.apply stack) rest
    inferInstanceAs (Decidable ((_ → _ → _) ∧ _))

theorem IsFlat.before {stack : Stack} {left right : Text} (flat : IsFlat stack (left ++ right))
    (seam : right.head? ≠ some '{') : IsFlat stack left := by
  induction left generalizing stack with
  | nil => trivial
  | cons character rest ih =>
    rw [List.cons_append, IsFlat, stepAt_append _ _ _ seam] at flat
    exact ⟨flat.1, ih flat.2⟩

/-- What a character of an expression that is no quote does to the contexts and to the brackets:
braces open and close contexts, other brackets do not. -/
inductive Turns : Action → List Char → List Char → Prop where
  | plain (opened : List Char) : Turns .keep opened opened
  | openingBrace (opened : List Char) : Turns (.push .expression) opened ('{' :: opened)
  | closingBrace (outer : List Char) : Turns .pop ('{' :: outer) outer
  | opening {bracket : Char} (noBrace : bracket ≠ '{') (opened : List Char) :
      Turns .keep opened (bracket :: opened)
  | closing {bracket : Char} (noBrace : bracket ≠ '{') (outer : List Char) :
      Turns .keep (bracket :: outer) outer

theorem isPair_eq_true_iff (opening closing : Char) : isPair opening closing = true ↔
    opening = '(' ∧ closing = ')' ∨ opening = '[' ∧ closing = ']' ∨ opening = '{' ∧ closing = '}' := by
  simp [isPair, or_assoc]

theorem turned?_quote {character : Char} (quote : isQuote character = true) (opened : List Char) :
    turned? opened character = some opened := by
  rcases (isQuote_eq_true_iff _).mp quote with rfl | rfl | rfl <;> rfl

theorem bracketsAfter?_expression (nested : Bool) (below : Stack) (opened : List Char)
    (character : Char) : bracketsAfter? nested (.expression :: below) opened character =
      if nested || .template ∉ below then turned? opened character else some opened := by
  simp [bracketsAfter?, Stack.top]

theorem turns_of_turned? {character : Char} {opened after : List Char}
    (noQuote : isQuote character = false) (turned : turned? opened character = some after) :
    Turns (expressionStep character).action opened after ∧
      (⟨opened.length, none⟩ : Nesting).after character = ⟨after.length, none⟩ := by
  unfold turned? at turned
  split at turned
  · rename_i isOpening
    obtain rfl := Option.some.inj turned
    rcases (isOpening_eq_true_iff _).mp isOpening with rfl | rfl | rfl
    · exact ⟨.opening (by decide) opened, rfl⟩
    · exact ⟨.opening (by decide) opened, rfl⟩
    · exact ⟨.openingBrace opened, rfl⟩
  · rename_i noOpening
    split at turned
    · split at turned
      · cases turned
      · rename_i innermost outer
        split at turned
        · rename_i pair
          obtain rfl := Option.some.inj turned
          rcases (isPair_eq_true_iff _ _).mp pair with ⟨rfl, rfl⟩ | ⟨rfl, rfl⟩ | ⟨rfl, rfl⟩
          · exact ⟨.closing (by decide) outer, rfl⟩
          · exact ⟨.closing (by decide) outer, rfl⟩
          · exact ⟨.closingBrace outer, rfl⟩
        · cases turned
    · rename_i noClosing
      obtain rfl := Option.some.inj turned
      have bare : IsBare character :=
        isBare_of_apart noQuote (Bool.eq_false_iff.mpr noOpening) (Bool.eq_false_iff.mpr noClosing)
      rw [expressionStep_bare character bare]
      exact ⟨.plain opened, by simp [Nesting.after, noQuote, noOpening, noClosing]⟩

/-- The contexts of an expression with these brackets open, outside quotes and templates. -/
def expressionStack (opened : List Char) : Stack :=
  List.replicate (opened.count '{' + 1) .expression

theorem expressionStack_eq (opened : List Char) :
    expressionStack opened = .expression :: List.replicate (opened.count '{') .expression := rfl

theorem Turns.apply_expressionStack {action : Action} {opened after : List Char}
    (turns : Turns action opened after) :
    action.apply (expressionStack opened) = expressionStack after := by
  cases turns with
  | plain => rfl
  | openingBrace => simp [Action.apply, expressionStack, List.replicate_succ]
  | closingBrace => simp [Action.apply, expressionStack, List.replicate_succ]
  | opening noBrace => simp [Action.apply, expressionStack, noBrace]
  | closing noBrace => simp [Action.apply, expressionStack, noBrace]

def IsBraced (front : List Char) : Prop :=
  ∀ bracket, front.getLast? = some bracket → bracket = '{'

theorem isBraced_nil : IsBraced [] := by
  intro bracket impossible
  cases impossible

theorem IsBraced.brace {front : List Char} (braced : IsBraced front) : IsBraced ('{' :: front) := by
  intro bracket isLast
  rw [List.getLast?_cons] at isLast
  cases last : front.getLast? with
  | none => simpa [last] using isLast.symm
  | some found => exact braced bracket (by simpa [last] using isLast)

theorem IsBraced.tail {innermost : Char} {others : List Char}
    (braced : IsBraced (innermost :: others)) : IsBraced others := by
  intro bracket isLast
  refine braced bracket ?_
  rw [List.getLast?_cons, isLast]
  rfl

/-- The contexts and the brackets above those of a template that is open. If the brackets in its
placeholders count, there are as many expressions as braces. -/
structure Encloses (nested : Bool) (above : Stack) (front : List Char) : Prop where
  flat : ∀ context ∈ above, context ≠ .template ∧ context ≠ .plain
  count : front.count '{' = if nested then above.count .expression else 0
  braced : IsBraced front

section Enclosing
variable {nested : Bool} {above : Stack} {front : List Char}

theorem Encloses.nothing : Encloses nested [] [] :=
  ⟨List.forall_mem_nil _, by simp, isBraced_nil⟩

/-- Contexts that are no placeholders come and go without the brackets. -/
theorem Encloses.replaced (encloses : Encloses nested above front) {newer : Stack}
    (flat : ∀ context ∈ newer, context ≠ .template ∧ context ≠ .plain)
    (same : newer.count .expression = above.count .expression) :
    Encloses nested newer front :=
  ⟨flat, by rw [encloses.count, same], encloses.braced⟩

/-- At the template itself none of its brackets is open. -/
theorem Encloses.eq_nil (encloses : Encloses nested [] front) : front = [] := by
  have none : '{' ∉ front := by
    rw [← List.count_eq_zero, encloses.count]
    simp
  by_contra filled
  have isLast := List.getLast?_eq_some_getLast filled
  have brace := encloses.braced _ isLast
  exact none (brace ▸ List.getLast_mem filled)

theorem Encloses.turns {more : Stack} {opened after : List Char} {action : Action}
    (encloses : Encloses true (.expression :: more) front)
    (turns : Turns action (front ++ opened) after) (below : Stack) :
    ∃ newer newFront, action.apply (.expression :: more ++ below) = newer ++ below ∧
      after = newFront ++ opened ∧ Encloses true newer newFront := by
  obtain ⟨flat, count, braced⟩ := encloses
  have flatMore := (List.forall_mem_cons.mp flat).2
  -- A brace of a placeholder is open, so that brackets close in front of those outside.
  obtain ⟨innermost, others, rfl⟩ : ∃ innermost others, front = innermost :: others := by
    refine List.exists_cons_of_ne_nil ?_
    rintro rfl
    simp at count
  generalize shape : innermost :: others ++ opened = brackets at turns
  cases turns with
  | plain => exact ⟨.expression :: more, _, rfl, shape.symm, flat, count, braced⟩
  | openingBrace =>
    refine ⟨.expression :: .expression :: more, '{' :: innermost :: others, rfl, ?_, ?_, ?_,
      braced.brace⟩
    · rw [← shape]
      rfl
    · simpa using flatMore
    · simpa using count
  | closingBrace =>
    obtain ⟨rfl, rfl⟩ := List.cons.inj shape
    exact ⟨more, others, rfl, rfl, flatMore, by simpa using count, braced.tail⟩
  | @opening bracket noBrace =>
    refine ⟨.expression :: more, bracket :: innermost :: others, rfl, ?_, flat, ?_, ?_⟩
    · rw [← shape]
      rfl
    · rw [List.count_cons_of_ne noBrace]
      exact count
    · simpa [IsBraced] using braced
  | closing noBrace =>
    obtain ⟨rfl, rfl⟩ := List.cons.inj shape
    refine ⟨.expression :: more, others, rfl, rfl, flat, ?_, braced.tail⟩
    rwa [List.count_cons_of_ne noBrace] at count

/-- What an expression in a template opens and closes stands in the template. -/
theorem Encloses.step_expression {more : Stack}
    (encloses : Encloses nested (.expression :: more) front) {character : Char}
    (noBacktick : character ≠ '\x60') (below : Stack) {opened after : List Char}
    (isAfter : bracketsAfter? nested (.expression :: (more ++ .template :: below)) (front ++ opened)
      character = some after) :
    ∃ newer newFront, (expressionStep character).action.apply
        (.expression :: (more ++ .template :: below)) = newer ++ .template :: below ∧
      after = newFront ++ opened ∧ Encloses nested newer newFront := by
  have flatMore := (List.forall_mem_cons.mp encloses.flat).2
  rw [bracketsAfter?_expression] at isAfter
  by_cases quote : isQuote character = true
  · have isQuote : IsQuote character := by
      rcases (isQuote_eq_true_iff _).mp quote with same | same | same
      · exact .inl same
      · exact .inr same
      · exact absurd same noBacktick
    rw [turned?_quote quote, ite_self] at isAfter
    obtain rfl := Option.some.inj isAfter
    rw [expressionStep_quote character isQuote]
    refine ⟨quoteContext character :: .expression :: more, front, rfl, rfl, ?_⟩
    rcases isQuote with rfl | rfl
    · exact encloses.replaced (by simpa [quoteContext] using flatMore) rfl
    · exact encloses.replaced (by simpa [quoteContext] using flatMore) rfl
  · have noQuote := Bool.eq_false_iff.mpr quote
    cases nested with
    | true =>
      obtain ⟨turns, -⟩ := turns_of_turned? noQuote isAfter
      exact encloses.turns turns _
    | false =>
      rw [if_neg (by simp)] at isAfter
      obtain rfl := Option.some.inj isAfter
      have uncounted {newer : Stack}
          (flat : ∀ context ∈ newer, context ≠ .template ∧ context ≠ .plain) :
          Encloses false newer front :=
        ⟨flat, encloses.count, encloses.braced⟩
      by_cases opens : character = '{'
      · subst opens
        exact ⟨.expression :: .expression :: more, front, rfl, rfl,
          uncounted (by simpa using flatMore)⟩
      · by_cases closes : character = '}'
        · subst closes
          exact ⟨more, front, rfl, rfl, uncounted flatMore⟩
        · have bare : IsBare character := by
            refine ⟨?_, ?_, noBacktick, opens, closes⟩ <;> rintro rfl <;> cases noQuote
          rw [expressionStep_bare character bare]
          exact ⟨_, front, rfl, rfl, encloses⟩

/-- A character in a template that is no backtick does not leave the template. -/
theorem Encloses.step (encloses : Encloses nested above front) {character : Char}
    (noBacktick : character ≠ '\x60') (rest : Text) (below : Stack) {opened after : List Char}
    (isAfter : bracketsAfter? nested (above ++ .template :: below) (front ++ opened) character =
      some after) :
    ∃ newer newFront,
      (stepAt (above ++ .template :: below) character rest).action.apply
        (above ++ .template :: below) = newer ++ .template :: below ∧
      after = newFront ++ opened ∧ Encloses nested newer newFront := by
  cases above with
  | nil =>
    obtain rfl := Option.some.inj isAfter
    simp only [List.nil_append, stepAt, Stack.top, transition, if_neg noBacktick, textAction,
      Step.only]
    split_ifs
    · exact ⟨[.opening], front, rfl, rfl, encloses.replaced (by simp) rfl⟩
    · exact ⟨[.escaped], front, rfl, rfl, encloses.replaced (by simp) rfl⟩
    · exact ⟨[], front, rfl, rfl, encloses⟩
  | cons context more =>
    obtain ⟨⟨noTemplate, noPlain⟩, flatMore⟩ := List.forall_mem_cons.mp encloses.flat
    have left (brief : context ≠ .expression) : Encloses nested more front :=
      encloses.replaced flatMore (List.count_cons_of_ne brief).symm
    simp only [List.cons_append, stepAt, Stack.top]
    cases context with
    | plain => exact absurd rfl noPlain
    | template => exact absurd rfl noTemplate
    | escaped =>
      obtain rfl := Option.some.inj isAfter
      exact ⟨more, front, rfl, rfl, left (by simp)⟩
    | doubleQuoted =>
      obtain rfl := Option.some.inj isAfter
      simp only [transition, Step.only]
      split_ifs
      · exact ⟨more, front, rfl, rfl, left (by simp)⟩
      · exact ⟨_, front, rfl, rfl, encloses⟩
    | singleQuoted =>
      obtain rfl := Option.some.inj isAfter
      simp only [transition, Step.only]
      split_ifs
      · exact ⟨more, front, rfl, rfl, left (by simp)⟩
      · exact ⟨_, front, rfl, rfl, encloses⟩
    | opening =>
      obtain rfl := Option.some.inj isAfter
      obtain ⟨-, count, braced⟩ := left (by simp)
      have flat : ∀ context ∈ .expression :: more, context ≠ .template ∧ context ≠ .plain := by
        simpa using flatMore
      cases nested with
      | false => exact ⟨.expression :: more, front, rfl, rfl, flat, count, braced⟩
      | true =>
        refine ⟨.expression :: more, '{' :: front, rfl, rfl, flat, ?_, braced.brace⟩
        simpa using count
    | expression => exact encloses.step_expression noBacktick _ isAfter

end Enclosing

inductive Agrees (nested : Bool) : Nesting → Place → Prop where
  | expression (opened : List Char) :
      Agrees nested ⟨opened.length, none⟩ ⟨expressionStack opened, opened⟩
  | quoted (opened : List Char) {quote : Char} (isQuote : IsQuote quote) :
      Agrees nested ⟨opened.length, some quote⟩
        ⟨quoteContext quote :: expressionStack opened, opened⟩
  | template (opened : List Char) {above : Stack} {front : List Char}
      (encloses : Encloses nested above front) :
      Agrees nested ⟨opened.length, some '\x60'⟩
        ⟨above ++ .template :: expressionStack opened, front ++ opened⟩

theorem Agrees.step {nested : Bool} {nesting : Nesting} {place after : Place} {character : Char}
    {rest : Text} (agrees : Agrees nested nesting place)
    (flat : character = '\x60' → .template ∈ place.stack → place.stack.top = .template)
    (isNext : place.next? nested character rest = some after) :
    Agrees nested (nesting.after character) after := by
  obtain ⟨-, same, isAfter⟩ := next?_eq_some_iff.mp isNext
  obtain ⟨stack, brackets⟩ := after
  cases agrees with
  | expression opened =>
    dsimp only at same isAfter
    rw [expressionStack_eq, bracketsAfter?_expression] at isAfter
    by_cases quote : isQuote character = true
    · rw [turned?_quote quote, ite_self] at isAfter
      obtain rfl := Option.some.inj isAfter
      rw [← same]
      rcases (isQuote_eq_true_iff _).mp quote with rfl | rfl | rfl
      · exact .quoted opened (.inl rfl)
      · exact .quoted opened (.inr rfl)
      · exact .template opened Encloses.nothing
    · have noQuote := Bool.eq_false_iff.mpr quote
      rw [if_pos (by simp [List.mem_replicate])] at isAfter
      obtain ⟨turns, counted⟩ := turns_of_turned? noQuote isAfter
      obtain rfl : expressionStack brackets = stack := turns.apply_expressionStack.symm.trans same
      rw [counted]
      exact .expression brackets
  | @quoted opened quote isQuote =>
    dsimp only at same isAfter
    have ignored : bracketsAfter? nested (quoteContext quote :: expressionStack opened) opened
        character = some opened := by
      rcases isQuote with rfl | rfl <;> rfl
    obtain rfl := Option.some.inj (ignored.symm.trans isAfter)
    rw [stepAt_quoteContext _ _ _ _ isQuote] at same
    by_cases closes : character = quote
    · rw [if_pos closes] at same
      obtain rfl : expressionStack opened = stack := same
      rw [after_quoted, if_pos closes]
      exact .expression opened
    · rw [if_neg closes] at same
      obtain rfl : quoteContext quote :: expressionStack opened = stack := same
      rw [after_quoted, if_neg closes]
      exact .quoted opened isQuote
  | @template opened above front encloses =>
    dsimp only at same isAfter flat
    by_cases backtick : character = '\x60'
    · subst backtick
      have onTemplate := flat rfl (List.mem_append_right above (List.mem_cons_self ..))
      obtain rfl : above = [] := by
        cases above with
        | nil => rfl
        | cons context more =>
          obtain rfl : context = .template := onTemplate
          exact absurd rfl (encloses.flat _ (List.mem_cons_self ..)).1
      obtain rfl := encloses.eq_nil
      obtain rfl := Option.some.inj isAfter
      obtain rfl : expressionStack opened = stack := same
      exact .expression opened
    · obtain ⟨newer, newFront, stepped, rfl, enclosesNewer⟩ :=
        encloses.step backtick rest (expressionStack opened) isAfter
      obtain rfl := stepped.symm.trans same
      rw [after_quoted, if_neg backtick]
      exact .template opened enclosesNewer

theorem Agrees.run {nested : Bool} {nesting : Nesting} {place after : Place} {text : Text}
    (agrees : Agrees nested nesting place) (flat : IsFlat place.stack text)
    (runs : place.run? nested text = some after) : Agrees nested (nesting.behind text) after := by
  induction text generalizing nesting place with
  | nil =>
    obtain rfl := Option.some.inj runs
    exact agrees
  | cons character rest ih =>
    obtain ⟨middle, isNext, runsOn⟩ := Option.bind_eq_some_iff.mp runs
    obtain ⟨noBacktick, flatRest⟩ := flat
    obtain ⟨-, same, -⟩ := next?_eq_some_iff.mp isNext
    rw [same] at flatRest
    exact ih (agrees.step noBacktick isNext) flatRest runsOn

theorem Agrees.eq_bottom {nested : Bool} {place : Place} (agrees : Agrees nested outside place) :
    place = bottom := by
  generalize shape : outside = nesting at agrees
  cases agrees with
  | expression opened =>
    obtain rfl := List.length_eq_zero_iff.mp (congrArg Nesting.depth shape).symm
    rfl
  | quoted opened isQuote => cases congrArg Nesting.quote shape
  | template opened encloses => cases congrArg Nesting.quote shape

theorem cutsOutside_of_isFlat {nested : Bool} {source : Text} (whole : IsWhole nested source)
    (flat : IsFlat [.expression] source) : CutsOutside nested source := by
  rintro before behind rfl closed
  have noBrace : (',' :: behind).head? ≠ some '{' := by simp
  have runs := (isWhole_iff _).mp whole
  rw [run?_append _ _ noBrace] at runs
  obtain ⟨place, runsBefore, -⟩ := Option.bind_eq_some_iff.mp runs
  have agrees : Agrees nested (outside.behind before) place :=
    Agrees.run (.expression []) (flat.before noBrace) runsBefore
  rw [closed] at agrees
  rw [isWhole_iff, runsBefore, agrees.eq_bottom]

/-- Of a whole source the arguments are whole exactly if what stands before each comma that
separates them is whole. Where no backtick stands between the two of a template this is so. -/
theorem arguments_of_whole_source (nested : Bool) (source : Text) (whole : IsWhole nested source) :
    ((∀ argument ∈ splitArguments source, IsWhole nested argument) ↔
      CutsOutside nested source) ∧
    (IsFlat [.expression] source → ∀ argument ∈ splitArguments source, IsWhole nested argument) := by
  have exactly := (fallsInto_pieces source).forall_isWhole_iff whole
  exact ⟨exactly, fun flat => exactly.mpr (cutsOutside_of_isFlat whole flat)⟩

/-- Brackets of each kind and a quoted backtick, and a template with brackets, commas and a quote
in its placeholder and an open bracket beside it. -/
def nestedArguments : Text :=
  "f(\x7ba: [1, 2]\x7d), \x60, ($\x7b[g(x, ','), \x7b\x7d]\x7d\x60 , '\x60,('".toList

theorem nestedArguments_stay_whole :
    IsWhole true nestedArguments ∧ IsFlat [.expression] nestedArguments ∧
      splitArguments nestedArguments = ["f(\x7ba: [1, 2]\x7d)".toList,
        "\x60, ($\x7b[g(x, ','), \x7b\x7d]\x7d\x60".toList, "'\x60,('".toList] ∧
      ∀ argument ∈ splitArguments nestedArguments, IsWhole true argument := by
  have whole : IsWhole true nestedArguments := by decide
  have flat : IsFlat [.expression] nestedArguments := by decide
  exact ⟨whole, flat, by decide, (arguments_of_whole_source true _ whole).2 flat⟩

def escapedBacktick : Text :=
  "\x60\\\x60,\x60".toList

def templateInTemplate : Text :=
  "\x60$\x7b\x60,\x60\x7d\x60".toList

/-- Whole sources are cut within a template, into arguments that leave it open. -/
theorem templates_are_cut :
    splitArguments escapedBacktick = ["\x60\\\x60".toList, "\x60".toList] ∧
      splitArguments templateInTemplate = ["\x60$\x7b\x60".toList, "\x60\x7d\x60".toList] ∧
      ∀ source ∈ [escapedBacktick, templateInTemplate], (∀ nested, IsWhole nested source) ∧
        ¬ ∀ argument ∈ splitArguments source, IsArgument argument := by
  decide

end TreeTemplate.Markup
