import TreeTemplate.Proofs.Markup.Splitting
import TreeTemplate.Proofs.Template.Closed

/-!
# Whole texts

The arguments of a listener stand in the expression of a placeholder. There a text is whole if the
scanner of placeholders comes back to the expression and the brackets outside quotes and templates
match. Both are read at once, place by place. Of a whole source the arguments are whole exactly if
what stands before each comma that separates them is whole.
-/
set_option autoImplicit false

namespace TreeTemplate.Markup

open Text Placeholder Nesting

def isPair (opening closing : Char) : Bool :=
  opening = '(' && closing = ')' || opening = '[' && closing = ']' || opening = '{' && closing = '}'

def turned? (opened : List Char) (character : Char) : Option (List Char) :=
  if isOpening character then some (character :: opened)
  else if isClosing character then
    match opened with
    | [] => none
    | innermost :: outer => if isPair innermost character then some outer else none
  else some opened

/-- As `turned?`, where brackets count in expressions only. In the placeholders of templates they
count if `nested`, and so does the brace that opens such a placeholder. -/
def bracketsAfter? (nested : Bool) (stack : Stack) (opened : List Char) (character : Char) :
    Option (List Char) :=
  match stack.top with
  | .expression => if nested || .template ∉ stack then turned? opened character else some opened
  | .opening => some (if nested then '{' :: opened else opened)
  | _ => some opened

def bracketsBehind? (nested : Bool) : Stack → List Char → Text → Option (List Char)
  | _, opened, [] => some opened
  | stack, opened, character :: rest =>
    (bracketsAfter? nested stack opened character).bind fun opened =>
      bracketsBehind? nested ((stepAt stack character rest).action.apply stack) opened rest

/-- Within an expression the text closes all contexts and all brackets that it opens, and nothing
else. -/
structure IsWhole (nested : Bool) (text : Text) : Prop where
  isArgument : IsArgument text
  isMatched : bracketsBehind? nested [.expression] [] text = some []

instance decidableIsWhole (nested : Bool) (text : Text) : Decidable (IsWhole nested text) :=
  decidable_of_iff (IsArgument text ∧ bracketsBehind? nested [.expression] [] text = some [])
    ⟨fun both => ⟨both.1, both.2⟩, fun whole => ⟨whole.isArgument, whole.isMatched⟩⟩

/-- Only a brace that follows can change what a character does. -/
theorem stepAt_append (stack : Stack) (character : Char) (left : Text) {right : Text}
    (seam : right.head? ≠ some '{') :
    stepAt stack character (left ++ right) = stepAt stack character left := by
  cases left with
  | nil =>
    have unopened : ∀ next : Option Char, next ≠ some '{' →
        textAction character next = textAction character none := by
      intro next noBrace
      simp [textAction, noBrace]
    cases shape : stack.top <;> simp [stepAt, transition, shape, unopened _ seam]
  | cons first others => rfl

theorem isBare_of_apart {character : Char} (noQuote : isQuote character = false)
    (noOpening : isOpening character = false) (noClosing : isClosing character = false) :
    IsBare character := by
  refine ⟨?_, ?_, ?_, ?_, ?_⟩ <;> rintro rfl
  · cases noQuote
  · cases noQuote
  · cases noQuote
  · cases noOpening
  · cases noClosing

structure Place where
  stack : Stack
  brackets : List Char

namespace Place

def bottom : Place :=
  ⟨[.expression], []⟩

def next? (nested : Bool) (place : Place) (character : Char) (rest : Text) : Option Place :=
  let stack := (stepAt place.stack character rest).action.apply place.stack
  if stack = [] then none
  else (bracketsAfter? nested place.stack place.brackets character).map fun opened => ⟨stack, opened⟩

def run? (nested : Bool) (place : Place) : Text → Option Place
  | [] => some place
  | character :: rest => (place.next? nested character rest).bind fun after => after.run? nested rest

variable {nested : Bool} {place after : Place} {character : Char} {rest : Text}

theorem next?_eq_some_iff : place.next? nested character rest = some after ↔
    after.stack ≠ [] ∧ (stepAt place.stack character rest).action.apply place.stack = after.stack ∧
      bracketsAfter? nested place.stack place.brackets character = some after.brackets := by
  obtain ⟨stack, opened⟩ := after
  rw [next?]
  dsimp only
  split
  · rename_i closed
    rw [closed]
    constructor
    · intro impossible
      cases impossible
    · rintro ⟨isOpen, same, -⟩
      exact absurd same.symm isOpen
  · rename_i isOpen
    rw [Option.map_eq_some_iff]
    constructor
    · rintro ⟨found, isFound, same⟩
      cases same
      exact ⟨isOpen, rfl, isFound⟩
    · rintro ⟨-, rfl, isFound⟩
      exact ⟨opened, isFound, rfl⟩

theorem run?_eq_bottom_iff (place : Place) (text : Text) : place.run? nested text = some bottom ↔
    ReturnsFrom place.stack text ∧
      bracketsBehind? nested place.stack place.brackets text = some [] := by
  induction text generalizing place with
  | nil =>
    obtain ⟨stack, opened⟩ := place
    simp [run?, ReturnsFrom, bracketsBehind?, bottom]
  | cons character rest ih =>
    rw [run?, next?, ReturnsFrom, bracketsBehind?]
    split
    · rename_i closed
      simp [closed]
    · rename_i isOpen
      cases bracketsAfter? nested place.stack place.brackets character with
      | none => simp
      | some opened => simpa [isOpen] using ih _

theorem isWhole_iff (text : Text) : IsWhole nested text ↔ bottom.run? nested text = some bottom := by
  rw [run?_eq_bottom_iff]
  exact ⟨fun whole => ⟨whole.isArgument, whole.isMatched⟩, fun both => ⟨both.1, both.2⟩⟩

theorem run?_append (place : Place) (left : Text) {right : Text} (seam : right.head? ≠ some '{') :
    place.run? nested (left ++ right) =
      (place.run? nested left).bind fun middle => middle.run? nested right := by
  induction left generalizing place with
  | nil => rfl
  | cons character rest ih =>
    rw [List.cons_append, run?, run?, next?, next?, stepAt_append _ _ _ seam, Option.bind_assoc]
    simp only [ih]

/-- A character that is neither a quote nor a bracket changes nothing outside contexts. -/
theorem bottom_run?_cons (noQuote : isQuote character = false)
    (noOpening : isOpening character = false) (noClosing : isClosing character = false) :
    bottom.run? nested (character :: rest) = bottom.run? nested rest := by
  have bare := isBare_of_apart noQuote noOpening noClosing
  have kept : bottom.next? nested character rest = some bottom := by
    rw [next?_eq_some_iff]
    refine ⟨List.cons_ne_nil _ _, ?_, ?_⟩
    · simp only [stepAt, bottom, Stack.top, transition, expressionStep_bare character bare]
      rfl
    · simp [bracketsAfter?, bottom, Stack.top, turned?, noOpening, noClosing]
  rw [run?, kept]
  rfl

theorem bottom_run?_blanks {run : Text} (blanks : IsBlanks run) (text : Text) :
    bottom.run? nested (run ++ text) = bottom.run? nested text := by
  induction run with
  | nil => rfl
  | cons character others ih =>
    obtain ⟨blank, later⟩ := List.forall_mem_cons.mp blanks
    obtain ⟨noQuote, noOpening, noClosing, -⟩ := isBlank_apart blank
    rw [List.cons_append, bottom_run?_cons noQuote noOpening noClosing, ih later]

inductive IsReached : Stack → Prop where
  | bottom : IsReached [.expression]
  | inExpression {context : Context} {below : Stack} (outer : IsReached (.expression :: below))
      (opens : context ∈ [.doubleQuoted, .singleQuoted, .template, .expression]) :
      IsReached (context :: .expression :: below)
  | inTemplate {context : Context} {below : Stack} (outer : IsReached (.template :: below))
      (opens : context ∈ [.escaped, .opening, .expression]) :
      IsReached (context :: .template :: below)

theorem IsReached.tail {stack : Stack} (reached : IsReached stack) (isOpen : stack.tail ≠ []) :
    IsReached stack.tail := by
  cases reached with
  | bottom => exact absurd rfl isOpen
  | inExpression outer opens => exact outer
  | inTemplate outer opens => exact outer

theorem IsReached.ne_plain {context : Context} {below : Stack}
    (reached : IsReached (context :: below)) : context ≠ .plain := by
  rintro rfl
  cases reached with
  | inExpression outer opens => simp at opens
  | inTemplate outer opens => simp at opens

/-- What stands in a template is behind a backslash or a dollar sign for one character only. -/
theorem IsReached.on_template {context : Context} {below : Stack}
    (reached : IsReached (context :: below)) (brief : context = .escaped ∨ context = .opening) :
    ∃ outer, below = .template :: outer ∧ IsReached below := by
  cases reached with
  | bottom => simp at brief
  | inExpression outer opens => rcases brief with rfl | rfl <;> simp at opens
  | @inTemplate _ below outer opens => exact ⟨below, rfl, outer⟩

theorem IsReached.step {stack : Stack} (reached : IsReached stack) (character : Char) (rest : Text)
    (isOpen : (stepAt stack character rest).action.apply stack ≠ []) :
    IsReached ((stepAt stack character rest).action.apply stack) := by
  obtain ⟨context, below, rfl⟩ : ∃ context below, stack = context :: below := by
    cases reached with
    | bottom => exact ⟨_, _, rfl⟩
    | inExpression outer opens => exact ⟨_, _, rfl⟩
    | inTemplate outer opens => exact ⟨_, _, rfl⟩
  simp only [stepAt, Stack.top] at isOpen ⊢
  cases context with
  | plain => exact absurd rfl reached.ne_plain
  | escaped => exact reached.tail isOpen
  | doubleQuoted =>
    simp only [transition, Step.only] at isOpen ⊢
    split_ifs at isOpen ⊢
    · exact reached.tail isOpen
    · exact reached
  | singleQuoted =>
    simp only [transition, Step.only] at isOpen ⊢
    split_ifs at isOpen ⊢
    · exact reached.tail isOpen
    · exact reached
  | opening =>
    obtain ⟨outer, rfl, reachedOuter⟩ := reached.on_template (.inr rfl)
    exact .inTemplate reachedOuter (by simp)
  | expression =>
    simp only [transition, expressionStep, Step.only] at isOpen ⊢
    split_ifs at isOpen ⊢
    · exact .inExpression reached (by simp)
    · exact .inExpression reached (by simp)
    · exact .inExpression reached (by simp)
    · exact .inExpression reached (by simp)
    · exact reached.tail isOpen
    · exact reached
  | template =>
    simp only [transition, textAction, Step.only] at isOpen ⊢
    split_ifs at isOpen ⊢
    · exact reached.tail isOpen
    · exact .inTemplate reached (by simp)
    · exact .inTemplate reached (by simp)
    · exact reached

theorem IsReached.next (reached : IsReached place.stack)
    (isNext : place.next? nested character rest = some after) : IsReached after.stack := by
  obtain ⟨isOpen, same, -⟩ := next?_eq_some_iff.mp isNext
  rw [← same] at isOpen ⊢
  exact reached.step character rest isOpen

theorem IsReached.run {place after : Place} {text : Text} (reached : IsReached place.stack)
    (runs : place.run? nested text = some after) : IsReached after.stack := by
  induction text generalizing place with
  | nil =>
    obtain rfl := Option.some.inj runs
    exact reached
  | cons character rest ih =>
    obtain ⟨middle, isNext, runsOn⟩ := Option.bind_eq_some_iff.mp runs
    exact ih (reached.next isNext) runsOn

/-- A blank leads to the bottom from nowhere else. -/
theorem eq_bottom_of_next? {place : Place} (reached : IsReached place.stack)
    (blank : isBlank character = true) (isNext : place.next? nested character rest = some bottom) :
    place = bottom := by
  obtain ⟨-, same, opened⟩ := next?_eq_some_iff.mp isNext
  obtain ⟨noQuote, noOpening, noClosing, -⟩ := isBlank_apart blank
  have bare := isBare_of_apart noQuote noOpening noClosing
  have noDollar : character ≠ '$' := by
    rintro rfl
    cases blank
  have noBackslash : character ≠ '\\' := by
    rintro rfl
    cases blank
  obtain ⟨stack, brackets⟩ := place
  cases stack with
  | nil => cases reached
  | cons context below =>
    simp only [stepAt, bottom, Stack.top] at same opened
    cases context with
    | plain => exact absurd rfl reached.ne_plain
    | escaped =>
      obtain ⟨outer, rfl, -⟩ := reached.on_template (.inl rfl)
      simp [transition, Step.only, Action.apply] at same
    | opening =>
      obtain ⟨outer, rfl, -⟩ := reached.on_template (.inr rfl)
      simp [transition, Step.only, Action.apply] at same
    | doubleQuoted => simp [transition, Step.only, Action.apply, bare.1] at same
    | singleQuoted => simp [transition, Step.only, Action.apply, bare.2.1] at same
    | template =>
      simp [transition, textAction, Step.only, Action.apply, bare.2.2.1, noDollar, noBackslash]
        at same
    | expression =>
      rw [transition, expressionStep_bare character bare] at same
      obtain rfl : below = [] := (List.cons.inj same).2
      have ignored : brackets = [] := by
        simpa [bracketsAfter?, Stack.top, turned?, noOpening, noClosing] using opened
      rw [ignored, bottom]

theorem eq_bottom_of_blanks {place : Place} {run : Text} (reached : IsReached place.stack)
    (blanks : IsBlanks run) (runs : place.run? nested run = some bottom) : place = bottom := by
  induction run generalizing place with
  | nil => exact Option.some.inj runs
  | cons character others ih =>
    obtain ⟨blank, later⟩ := List.forall_mem_cons.mp blanks
    obtain ⟨middle, isNext, runsOn⟩ := Option.bind_eq_some_iff.mp runs
    obtain rfl := ih (reached.next isNext) later runsOn
    exact eq_bottom_of_next? reached blank isNext

end Place

open Place

section Whole
variable {nested : Bool}

theorem isWhole_nil : IsWhole nested [] :=
  (isWhole_iff []).mpr rfl

/-- Blanks at the ends of a text do not matter. -/
theorem isWhole_trim_iff (piece : Text) : IsWhole nested (trim piece) ↔ IsWhole nested piece := by
  obtain ⟨front, back, same, blanksFront, blanksBack, -⟩ := trim_parts piece
  generalize trim piece = kept at same ⊢
  have seam : back.head? ≠ some '{' := by
    intro brace
    have blank := blanksBack '{' (List.mem_of_head? brace)
    cases blank
  have blanksOnly : bottom.run? nested back = some bottom := by
    have read : bottom.run? nested (back ++ []) = bottom.run? nested [] :=
      bottom_run?_blanks blanksBack []
    rwa [List.append_nil] at read
  rw [isWhole_iff, isWhole_iff, same, bottom_run?_blanks blanksFront, run?_append _ _ seam]
  constructor
  · intro runs
    rw [runs]
    exact blanksOnly
  · intro runs
    obtain ⟨place, runsKept, runsBack⟩ := Option.bind_eq_some_iff.mp runs
    rwa [eq_bottom_of_blanks (IsReached.bottom.run runsKept) blanksBack runsBack] at runsKept

/-- What stands behind a whole piece and a comma is read as from the beginning. -/
theorem isWhole_behind_iff {piece : Text} (whole : IsWhole nested piece) (rest : Text) :
    IsWhole nested (piece ++ ',' :: rest) ↔ IsWhole nested rest := by
  have runs := (isWhole_iff piece).mp whole
  rw [isWhole_iff, isWhole_iff, run?_append _ _ (by simp), runs, Option.bind_some,
    bottom_run?_cons rfl rfl rfl]

/-! ## Cuts -/

def CutsOutside (nested : Bool) (source : Text) : Prop :=
  ∀ before behind, source = before ++ ',' :: behind → outside.behind before = outside →
    IsWhole nested before

theorem cutsOutside_uncut {piece : Text} (uncut : outside.IsUncut piece) :
    CutsOutside nested piece := by
  rintro before behind rfl closed
  rw [isUncut_append, closed] at uncut
  cases uncut.2.1

/-- The first cut of a list is the one behind its first piece. -/
theorem cutsOutside_behind_iff {piece : Text} (isPiece : IsPiece piece) (rest : Text) :
    CutsOutside nested (piece ++ ',' :: rest) ↔
      IsWhole nested piece ∧ CutsOutside nested rest := by
  constructor
  · intro outer
    have whole := outer piece rest rfl isPiece.closed
    refine ⟨whole, ?_⟩
    rintro before behind rfl closed
    refine (isWhole_behind_iff whole before).mp (outer _ behind ?_ ?_)
    · rw [List.append_assoc, List.cons_append]
    · rw [behind_append, isPiece.closed]
      exact closed
  · rintro ⟨whole, outer⟩ before behind same closed
    rw [List.append_eq_append_iff] at same
    obtain ⟨between, rfl, sameRest⟩ | ⟨between, rfl, sameRest⟩ := same
    · cases between with
      | nil => rwa [List.append_nil]
      | cons character others =>
        obtain ⟨rfl, rfl⟩ := List.cons.inj sameRest
        refine (isWhole_behind_iff whole others).mpr (outer others behind rfl ?_)
        rwa [behind_append, isPiece.closed] at closed
    · cases between with
      | nil => rwa [List.append_nil] at whole
      | cons character others =>
        -- A comma within the piece does not cut.
        obtain ⟨rfl, -⟩ := List.cons.inj sameRest
        have uncut := isPiece.uncut
        rw [isUncut_append, closed] at uncut
        cases uncut.2.1

theorem FallsInto.forall_isWhole_iff {source : Text} {cut : List Text}
    (fallsInto : FallsInto source cut) (whole : IsWhole nested source) :
    (∀ argument ∈ argumentsOf cut, IsWhole nested argument) ↔ CutsOutside nested source := by
  induction fallsInto with
  | @last piece uncut =>
    refine iff_of_true ?_ (cutsOutside_uncut uncut)
    by_cases blank : trim piece = []
    · rw [argumentsOf_blank blank]
      exact List.forall_mem_nil _
    · rw [argumentsOf_filled blank]
      exact List.forall_mem_singleton.mpr ((isWhole_trim_iff piece).mpr whole)
  | @more piece rest others isPiece later ih =>
    have split : (∀ argument ∈ argumentsOf (piece :: others), IsWhole nested argument) ↔
        IsWhole nested piece ∧ ∀ argument ∈ argumentsOf others, IsWhole nested argument := by
      by_cases blank : trim piece = []
      · have wholePiece : IsWhole nested piece := by
          rw [← isWhole_trim_iff, blank]
          exact isWhole_nil
        rw [argumentsOf_blank blank]
        exact (and_iff_right wholePiece).symm
      · rw [argumentsOf_filled blank, List.forall_mem_cons, isWhole_trim_iff]
    rw [split, cutsOutside_behind_iff isPiece]
    refine and_congr_right fun wholePiece => ih ?_
    exact (isWhole_behind_iff wholePiece rest).mp whole

end Whole

end TreeTemplate.Markup
