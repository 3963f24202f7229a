import Mathlib.Tactic.SplitIfs
import TreeTemplate.Proofs.Placeholder.Grammar

/-!
# Crossing derived texts

What the scanner does on a text that the grammar derives. Inside a placeholder it comes back to the
stack it started with, writes the text as it is, and marks no start. A row of items outside
placeholders is written with its own backticks escaped.
-/
set_option autoImplicit false

namespace TreeTemplate.Placeholder

def marks (stack : Stack) (text : Text) : List Mark :=
  (steps stack text).map Step.mark

theorem settle_cons (stack : Stack) (character : Char) (rest : Text) :
    settle stack (character :: rest) =
      settle ((stepAt stack character rest).action.apply stack) rest := rfl

theorem marks_cons (stack : Stack) (character : Char) (rest : Text) :
    marks stack (character :: rest) =
      (stepAt stack character rest).mark ::
        marks ((stepAt stack character rest).action.apply stack) rest := rfl

theorem escapedText_cons (stack : Stack) (character : Char) (rest : Text)
    (silent : (stepAt stack character rest).escape = false) :
    escapedText stack (character :: rest) =
      character :: escapedText ((stepAt stack character rest).action.apply stack) rest := by
  simp [escapedText, silent]

/-- The pieces between the characters that leave an empty stack, after `current` has been read of
the first of them. -/
def pieces (stack : Stack) (current : Text) : Text → List Text
  | [] => []
  | character :: rest =>
    match (stepAt stack character rest).action.apply stack with
    | [] => (current ++ [character]) :: pieces [] [] rest
    | context :: below => pieces (context :: below) (current ++ [character]) rest

theorem pieces_cons_inside {stack below : Stack} {inner : Context} {character : Char} {rest : Text}
    (effect : (stepAt stack character rest).action.apply stack = inner :: below) (current : Text) :
    pieces stack current (character :: rest) =
      pieces (inner :: below) (current ++ [character]) rest := by
  rw [pieces, effect]

theorem pieces_cons_done {stack : Stack} {character : Char} {rest : Text}
    (effect : (stepAt stack character rest).action.apply stack = []) (current : Text) :
    pieces stack current (character :: rest) = (current ++ [character]) :: pieces [] [] rest := by
  rw [pieces, effect]

/-- The scanner takes the stack `before` to `after` over a text with `rest` behind it; it writes
the text as it is, leaves no mark of a start, and does not empty the stack on the way. -/
structure Crosses (rest : Text) (before : Stack) (text : Text) (after : Stack) : Prop where
  settles : settle before (text ++ rest) = settle after rest
  writes : escapedText before (text ++ rest) = text ++ escapedText after rest
  startless : ∃ left, marks before (text ++ rest) = left ++ marks after rest ∧ Mark.start ∉ left
  whole : ∀ current, pieces before current (text ++ rest) = pieces after (current ++ text) rest

theorem Crosses.refl (rest : Text) (stack : Stack) : Crosses rest stack [] stack :=
  ⟨rfl, rfl, ⟨[], rfl, by simp⟩, by simp⟩

theorem Crosses.trans {rest first second : Text} {before middle after : Stack}
    (head : Crosses (second ++ rest) before first middle)
    (tail : Crosses rest middle second after) :
    Crosses rest before (first ++ second) after := by
  obtain ⟨headMarks, headExact, headStartless⟩ := head.startless
  obtain ⟨tailMarks, tailExact, tailStartless⟩ := tail.startless
  refine ⟨?_, ?_, ⟨headMarks ++ tailMarks, ?_, ?_⟩, ?_⟩
  · rw [List.append_assoc, head.settles, tail.settles]
  · rw [List.append_assoc, head.writes, tail.writes, List.append_assoc]
  · rw [List.append_assoc, headExact, tailExact, List.append_assoc]
  · simp [headStartless, tailStartless]
  · intro current
    rw [List.append_assoc, head.whole, tail.whole, List.append_assoc]

/-- Only the plain context asks for a backslash or marks a start. -/
theorem stepAt_inside (context : Context) (stack : Stack) (character : Char) (rest : Text)
    (inner : context ≠ .plain) :
    (stepAt (context :: stack) character rest).escape = false ∧
      (stepAt (context :: stack) character rest).mark ≠ .start := by
  cases context with
  | plain => exact absurd rfl inner
  | expression =>
    simp only [stepAt, Stack.top, transition, expressionStep]
    split_ifs <;> simp [Step.only]
  | template =>
    simp only [stepAt, Stack.top, transition]
    split_ifs <;> simp [Step.only]
  | escaped => simp [stepAt, Stack.top, transition, Step.only]
  | doubleQuoted => simp [stepAt, Stack.top, transition, Step.only]
  | singleQuoted => simp [stepAt, Stack.top, transition, Step.only]
  | opening => simp [stepAt, Stack.top, transition, Step.only]

theorem Crosses.step {rest : Text} {context inner : Context} {stack below : Stack}
    (character : Char) (inside : context ≠ .plain)
    (effect : (stepAt (context :: stack) character rest).action.apply (context :: stack) =
      inner :: below) :
    Crosses rest (context :: stack) [character] (inner :: below) := by
  obtain ⟨silent, startless⟩ := stepAt_inside context stack character rest inside
  refine ⟨?_, ?_, ⟨[(stepAt (context :: stack) character rest).mark], ?_, ?_⟩, ?_⟩
  · simp [settle_cons, effect]
  · simp [escapedText_cons _ _ _ silent, effect]
  · simp [marks_cons, effect]
  · simpa using startless.symm
  · intro current
    exact pieces_cons_inside effect current

theorem Crosses.cons {rest text : Text} {context inner : Context} {stack below after : Stack}
    (character : Char) (inside : context ≠ .plain)
    (effect : (stepAt (context :: stack) character (text ++ rest)).action.apply (context :: stack) =
      inner :: below)
    (tail : Crosses rest (inner :: below) text after) :
    Crosses rest (context :: stack) (character :: text) after :=
  Crosses.trans (Crosses.step character inside effect) tail

def quoteContext (quote : Char) : Context :=
  if quote = '\x22' then .doubleQuoted else .singleQuoted

theorem stepAt_quoteContext (quote character : Char) (stack : Stack) (rest : Text)
    (isQuote : IsQuote quote) :
    (stepAt (quoteContext quote :: stack) character rest).action =
      if character = quote then .pop else .keep := by
  rcases isQuote with rfl | rfl <;> rfl

theorem quoteContext_ne_plain (quote : Char) : quoteContext quote ≠ .plain := by
  unfold quoteContext
  split_ifs <;> simp

theorem crosses_run (quote : Char) (run rest : Text) (stack : Stack) (isQuote : IsQuote quote)
    (inside : quote ∉ run) :
    Crosses rest (quoteContext quote :: stack) run (quoteContext quote :: stack) := by
  induction run with
  | nil => exact Crosses.refl _ _
  | cons character run ih =>
    have other : character ≠ quote := fun same => inside (by simp [same])
    have later : quote ∉ run := fun member => inside (List.mem_cons_of_mem _ member)
    refine Crosses.cons character (quoteContext_ne_plain quote) ?_ (ih later)
    rw [stepAt_quoteContext _ _ _ _ isQuote, if_neg other]
    rfl

theorem expressionStep_bare (character : Char) (isBare : IsBare character) :
    expressionStep character = .only .keep := by
  obtain ⟨double, single, backtick, opening, closing⟩ := isBare
  simp [expressionStep, double, single, backtick, opening, closing]

theorem expressionStep_quote (quote : Char) (isQuote : IsQuote quote) :
    expressionStep quote = .only (.push (quoteContext quote)) := by
  rcases isQuote with rfl | rfl <;> rfl

theorem textAction_plain (nested : Bool) (character : Char) (row rest : Text)
    (isPlain : IsPlain nested character row) (seam : rest.head? ≠ some '{') :
    textAction character (row ++ rest).head? = .keep := by
  obtain ⟨backslash, dollar, -⟩ := isPlain
  have unopened : ¬(character = '$' ∧ (row ++ rest).head? = some '{') := by
    rintro ⟨same, next⟩
    cases row with
    | nil => exact seam next
    | cons first row => exact dollar ⟨same, next⟩
  rw [textAction, if_neg unopened, if_neg backslash]

/-- The crossing of a body between a character that pushes a context and one that pops it. -/
theorem Crosses.enclosed {rest body row : Text} {outer inner : Context} {stack after : Stack}
    {opener closer : Char} (outerInside : outer ≠ .plain) (innerInside : inner ≠ .plain)
    (opens : (stepAt (outer :: stack) opener (body ++ closer :: row ++ rest)).action = .push inner)
    (inside : Crosses (closer :: (row ++ rest)) (inner :: outer :: stack) body
      (inner :: outer :: stack))
    (closes : (stepAt (inner :: outer :: stack) closer (row ++ rest)).action = .pop)
    (later : Crosses rest (outer :: stack) row after) :
    Crosses rest (outer :: stack) (opener :: (body ++ closer :: row)) after := by
  have close : Crosses rest (inner :: outer :: stack) (closer :: row) after :=
    Crosses.cons closer innerInside (by rw [closes]; rfl) later
  have whole : Crosses rest (inner :: outer :: stack) (body ++ closer :: row) after :=
    Crosses.trans inside close
  exact Crosses.cons opener outerInside (by rw [opens]; rfl) whole

def Form.context : Form → Context
  | items _ => .template
  | expression => .expression

@[simp] theorem Form.context_items (nested : Bool) : (Form.items nested).context = .template := rfl

@[simp] theorem Form.context_expression : Form.expression.context = .expression := rfl

/-- Induction over the grammar. A row of items must not meet a brace behind it, since its last
character may be a dollar sign. -/
theorem Derives.crosses {form : Form} {text : Text} (derivation : Derives form text)
    (stack : Stack) (rest : Text) (nested : form ≠ .items false)
    (seam : form = .items true → rest.head? ≠ some '{') :
    Crosses rest (form.context :: stack) text (form.context :: stack) := by
  induction derivation generalizing stack rest with
  | empty form => exact Crosses.refl _ _
  | @escaped _ row character later ih =>
    have pair : Crosses rest (.escaped :: .template :: stack) (character :: row)
        (.template :: stack) :=
      Crosses.cons character (by simp) rfl (ih stack rest nested seam)
    exact Crosses.cons '\\' (by simp) rfl pair
  | @placeholder _ body row inside later ihInside ihLater =>
    have across := ihInside (.template :: stack) ('}' :: (row ++ rest)) (by simp) (by simp)
    have close : Crosses rest (.expression :: .template :: stack) ('}' :: row)
        (.template :: stack) :=
      Crosses.cons '}' (by simp) rfl (ihLater stack rest nested seam)
    have braced : Crosses rest (.opening :: .template :: stack) ('{' :: (body ++ '}' :: row))
        (.template :: stack) :=
      Crosses.cons '{' (by simp) rfl (Crosses.trans across close)
    exact Crosses.cons '$' (by simp) rfl braced
  | @plain isNested character row isPlain later ih =>
    obtain rfl : isNested = true := by simpa using nested
    have kept := textAction_plain true character row rest isPlain (seam rfl)
    refine Crosses.cons character (by simp) ?_ (ih stack rest nested seam)
    simp only [stepAt, Stack.top, Form.context_items, transition, if_neg (isPlain.2.2 rfl), kept]
    rfl
  | @bare character row isBare later ih =>
    refine Crosses.cons character (by simp) ?_ (ih stack rest nested seam)
    simp only [stepAt, Stack.top, Form.context_expression, transition,
      expressionStep_bare character isBare]
    rfl
  | @quoted quote run row isQuote inside later ih =>
    have opens : (expressionStep quote).action = .push (quoteContext quote) := by
      rw [expressionStep_quote quote isQuote]
      rfl
    refine Crosses.enclosed (by simp) (quoteContext_ne_plain quote) opens
      (crosses_run quote run _ _ isQuote inside) ?_ (ih stack rest nested seam)
    rw [stepAt_quoteContext _ _ _ _ isQuote, if_pos rfl]
  | @braces body row inside later ihInside ihLater =>
    exact Crosses.enclosed (by simp) (by simp) rfl
      (ihInside (.expression :: stack) ('}' :: (row ++ rest)) (by simp) (by simp)) rfl
      (ihLater stack rest nested seam)
  | @template body row inside later ihInside ihLater =>
    exact Crosses.enclosed (by simp) (by simp) rfl
      (ihInside (.expression :: stack) ('\x60' :: (row ++ rest)) (by simp) (by simp)) rfl
      (ihLater stack rest nested seam)

end TreeTemplate.Placeholder
