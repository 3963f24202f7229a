import Mathlib.Data.List.Basic
import TreeTemplate.Markup.Arguments
import TreeTemplate.Proofs.Text.Runs

/-!
# Splitting and joining arguments

A list of arguments is cut into pieces, each of which is read from outside all brackets and quotes.
Every piece but the last ends there again, so that pieces can be trimmed, left out and joined without
moving a cut. Where each argument closes what it opens, splitting undoes joining; and whatever the
source, what splitting gives is split in the same way once it is joined.
-/
set_option autoImplicit false

namespace TreeTemplate.Markup

open Text

namespace Nesting

def behind (nesting : Nesting) (text : Text) : Nesting :=
  text.foldl after nesting

/-- No comma of the text separates two arguments. -/
def IsUncut : Nesting → Text → Prop
  | _, [] => True
  | nesting, character :: rest =>
    nesting.isCut character = false ∧ IsUncut (nesting.after character) rest

theorem behind_append (nesting : Nesting) (left right : Text) :
    nesting.behind (left ++ right) = (nesting.behind left).behind right :=
  List.foldl_append

theorem isUncut_append (nesting : Nesting) (left right : Text) :
    nesting.IsUncut (left ++ right) ↔
      nesting.IsUncut left ∧ (nesting.behind left).IsUncut right := by
  induction left generalizing nesting with
  | nil => exact (and_iff_right trivial).symm
  | cons character rest ih =>
    rw [List.cons_append, IsUncut, IsUncut, ih, and_assoc]
    rfl

theorem isCut_eq_true_iff (nesting : Nesting) (character : Char) :
    nesting.isCut character = true ↔ character = ',' ∧ nesting = outside := by
  simp [isCut]

theorem isQuote_eq_true_iff (character : Char) :
    isQuote character = true ↔ character = '\x22' ∨ character = '\x27' ∨ character = '\x60' := by
  simp [isQuote, or_assoc]

theorem isOpening_eq_true_iff (character : Char) :
    isOpening character = true ↔ character = '(' ∨ character = '[' ∨ character = '{' := by
  simp [isOpening, or_assoc]

theorem isClosing_eq_true_iff (character : Char) :
    isClosing character = true ↔ character = ')' ∨ character = ']' ∨ character = '}' := by
  simp [isClosing, or_assoc]

/-- Between quotes nothing counts but the next quote of the kind. -/
theorem after_quoted (depth : Nat) (quote character : Char) :
    (⟨depth, some quote⟩ : Nesting).after character =
      if character = quote then ⟨depth, none⟩ else ⟨depth, some quote⟩ := rfl

def IsProper (nesting : Nesting) : Prop :=
  ∀ quote, nesting.quote = some quote → isQuote quote = true

theorem isProper_outside : outside.IsProper := by
  intro quote impossible
  cases impossible

theorem IsProper.after {nesting : Nesting} (proper : nesting.IsProper) (character : Char) :
    (nesting.after character).IsProper := by
  obtain ⟨depth, _ | quote⟩ := nesting
  · intro opened isOpen
    rw [Nesting.after] at isOpen
    dsimp only at isOpen
    split at isOpen
    · rename_i isQuote
      rwa [← Option.some.inj isOpen]
    · split at isOpen
      · cases isOpen
      · split at isOpen <;> cases isOpen
  · intro opened isOpen
    rw [Nesting.after] at isOpen
    dsimp only at isOpen
    split at isOpen
    · cases isOpen
    · exact proper opened isOpen

theorem IsProper.behind {nesting : Nesting} (proper : nesting.IsProper) (text : Text) :
    (nesting.behind text).IsProper := by
  induction text generalizing nesting with
  | nil => exact proper
  | cons character rest ih => exact ih (proper.after character)

/-- A character that is neither a quote nor a bracket changes nothing, between quotes or not. -/
theorem IsProper.after_plain {nesting : Nesting} (proper : nesting.IsProper) {character : Char}
    (noQuote : isQuote character = false) (noOpening : isOpening character = false)
    (noClosing : isClosing character = false) : nesting.after character = nesting := by
  obtain ⟨depth, _ | quote⟩ := nesting
  · simp [Nesting.after, noQuote, noOpening, noClosing]
  · have apart : character ≠ quote := by
      rintro rfl
      have isQuote := proper character rfl
      rw [noQuote] at isQuote
      cases isQuote
    simp [Nesting.after, apart]

theorem isBlank_apart {character : Char} (blank : isBlank character = true) :
    isQuote character = false ∧ isOpening character = false ∧ isClosing character = false ∧
      character ≠ ',' := by
  refine ⟨?_, ?_, ?_, ?_⟩
  · rw [Bool.eq_false_iff, ne_eq, isQuote_eq_true_iff]
    rintro (rfl | rfl | rfl) <;> cases blank
  · rw [Bool.eq_false_iff, ne_eq, isOpening_eq_true_iff]
    rintro (rfl | rfl | rfl) <;> cases blank
  · rw [Bool.eq_false_iff, ne_eq, isClosing_eq_true_iff]
    rintro (rfl | rfl | rfl) <;> cases blank
  · rintro rfl
    cases blank

/-- Blanks are read over. -/
theorem IsProper.blanks {nesting : Nesting} (proper : nesting.IsProper) {run : Text}
    (blanks : IsBlanks run) : nesting.behind run = nesting ∧ nesting.IsUncut run := by
  induction run with
  | nil => exact ⟨rfl, trivial⟩
  | cons character rest ih =>
    obtain ⟨blank, blanksRest⟩ := List.forall_mem_cons.mp blanks
    obtain ⟨noQuote, noOpening, noClosing, noComma⟩ := isBlank_apart blank
    have kept := proper.after_plain noQuote noOpening noClosing
    have uncut : nesting.isCut character = false := by
      rw [Bool.eq_false_iff, ne_eq, isCut_eq_true_iff]
      exact fun cut => noComma cut.1
    obtain ⟨behindRest, uncutRest⟩ := ih blanksRest
    refine ⟨?_, uncut, ?_⟩
    · rw [Nesting.behind, List.foldl_cons, kept]
      exact behindRest
    · rwa [kept]

end Nesting

open Nesting

/-- The text can stand between two cuts: no comma in it separates arguments, and it ends outside all
brackets and quotes. -/
structure IsPiece (text : Text) : Prop where
  uncut : outside.IsUncut text
  closed : outside.behind text = outside

/-- How a list of arguments falls into pieces. What the last one opens may stay open. -/
inductive FallsInto : Text → List Text → Prop where
  | last {piece : Text} (uncut : outside.IsUncut piece) : FallsInto piece [piece]
  | more {piece rest : Text} {others : List Text} (isPiece : IsPiece piece)
      (later : FallsInto rest others) : FallsInto (piece ++ ',' :: rest) (piece :: others)

theorem fallsInto_behind (text before : Text) (uncut : outside.IsUncut before) :
    ∃ first others, pieces (outside.behind before) text = first :: others ∧
      FallsInto (before ++ text) ((before ++ first) :: others) := by
  induction text generalizing before with
  | nil =>
    refine ⟨[], [], rfl, ?_⟩
    rw [List.append_nil]
    exact .last uncut
  | cons character rest ih =>
    rw [pieces]
    by_cases cut : (outside.behind before).isCut character = true
    · obtain ⟨rfl, closed⟩ := (isCut_eq_true_iff _ _).mp cut
      obtain ⟨first, others, same, fallsInto⟩ := ih [] trivial
      rw [if_pos cut, closed]
      refine ⟨[], first :: others, congrArg ([] :: ·) same, ?_⟩
      rw [List.append_nil]
      exact .more ⟨uncut, closed⟩ fallsInto
    · have extended : outside.IsUncut (before ++ [character]) :=
        (isUncut_append ..).mpr ⟨uncut, Bool.eq_false_iff.mpr cut, trivial⟩
      obtain ⟨first, others, same, fallsInto⟩ := ih (before ++ [character]) extended
      have step : outside.behind (before ++ [character]) = (outside.behind before).after character :=
        behind_append ..
      rw [step] at same
      rw [if_neg cut, same]
      refine ⟨character :: first, others, rfl, ?_⟩
      rwa [List.append_assoc, List.append_assoc] at fallsInto

/-- The pieces are those into which the source falls. -/
theorem fallsInto_pieces (source : Text) : FallsInto source (pieces outside source) := by
  obtain ⟨first, others, same, fallsInto⟩ := fallsInto_behind source [] trivial
  rw [show pieces outside source = first :: others from same]
  exact fallsInto

theorem pieces_uncut {text : Text} (nesting : Nesting) (uncut : nesting.IsUncut text) :
    pieces nesting text = [text] := by
  induction text generalizing nesting with
  | nil => rfl
  | cons character rest ih =>
    obtain ⟨noCut, later⟩ := uncut
    rw [pieces, noCut, ih _ later]
    rfl

theorem pieces_cut {text : Text} (nesting : Nesting) (uncut : nesting.IsUncut text)
    (closed : nesting.behind text = outside) (rest : Text) :
    pieces nesting (text ++ ',' :: rest) = text :: pieces outside rest := by
  induction text generalizing nesting with
  | nil =>
    obtain rfl : nesting = outside := closed
    rfl
  | cons character others ih =>
    obtain ⟨noCut, later⟩ := uncut
    rw [List.cons_append, pieces, noCut, ih _ later closed]
    rfl

/-- Without the blanks at its ends a piece is cut as before, and leaves the same nesting. -/
theorem outside_trim (piece : Text) :
    (outside.IsUncut piece → outside.IsUncut (trim piece)) ∧
      outside.behind (trim piece) = outside.behind piece := by
  obtain ⟨front, back, same, blanksFront, blanksBack, -⟩ := trim_parts piece
  generalize trim piece = kept at same ⊢
  have frontSame := (isProper_outside.blanks blanksFront).1
  have backSame := ((isProper_outside.behind kept).blanks blanksBack).1
  constructor
  · intro uncut
    rw [same, isUncut_append, isUncut_append, frontSame] at uncut
    exact uncut.2.1
  · rw [same, behind_append, behind_append, frontSame, backSame]

theorem IsPiece.trim {piece : Text} (isPiece : IsPiece piece) : IsPiece (Text.trim piece) :=
  ⟨(outside_trim piece).1 isPiece.uncut, (outside_trim piece).2.trans isPiece.closed⟩

theorem trim_cons_blank {character : Char} (blank : isBlank character = true) (text : Text) :
    trim (character :: text) = trim text := by
  rw [trim, trim, trimStart, List.dropWhile_cons_of_pos blank, ← trimStart]

def argumentsOf (cut : List Text) : List Text :=
  (cut.map trim).filter fun argument => !argument.isEmpty

theorem splitArguments_eq (source : Text) :
    splitArguments source = argumentsOf (pieces outside source) := rfl

theorem argumentsOf_blank {piece : Text} (blank : trim piece = []) (others : List Text) :
    argumentsOf (piece :: others) = argumentsOf others := by
  simp [argumentsOf, blank]

theorem argumentsOf_filled {piece : Text} (filled : trim piece ≠ []) (others : List Text) :
    argumentsOf (piece :: others) = trim piece :: argumentsOf others := by
  simp [argumentsOf, filled]

theorem argumentsOf_trimmed {argument : Text} (trimmed : IsTrimmed argument) (others : List Text) :
    argumentsOf (argument :: others) = argument :: argumentsOf others := by
  have kept := trimmed.trim_eq
  rw [argumentsOf_filled (by rw [kept]; exact trimmed.filled), kept]

/-- A blank in front of a list belongs to no argument. -/
theorem splitArguments_cons_blank {character : Char} (blank : isBlank character = true)
    (source : Text) : splitArguments (character :: source) = splitArguments source := by
  obtain ⟨noQuote, noOpening, noClosing, noComma⟩ := isBlank_apart blank
  have noCut : outside.isCut character = false := by
    rw [Bool.eq_false_iff, ne_eq, isCut_eq_true_iff]
    exact fun cut => noComma cut.1
  obtain ⟨first, others, same, -⟩ := fallsInto_behind source [] trivial
  have same : pieces outside source = first :: others := same
  rw [splitArguments_eq, splitArguments_eq, pieces, noCut,
    isProper_outside.after_plain noQuote noOpening noClosing, same]
  simp only [Bool.false_eq_true, if_false, onFirstPiece, argumentsOf, List.map_cons,
    trim_cons_blank blank]

/-! ## Arguments -/

/-- Arguments as splitting gives them: all but the last end outside brackets and quotes. -/
inductive AreArguments : List Text → Prop where
  | none : AreArguments []
  | last {argument : Text} (trimmed : IsTrimmed argument) (uncut : outside.IsUncut argument) :
      AreArguments [argument]
  | more {argument : Text} {others : List Text} (trimmed : IsTrimmed argument)
      (isPiece : IsPiece argument) (later : AreArguments others) : AreArguments (argument :: others)

/-- Splitting undoes joining. The blank that joining puts behind a comma is trimmed again. -/
theorem AreArguments.splitArguments_intercalate {arguments : List Text}
    (areArguments : AreArguments arguments) :
    splitArguments (List.intercalate ", ".toList arguments) = arguments := by
  induction areArguments with
  | none => rfl
  | last trimmed uncut =>
    rw [List.intercalate_singleton, splitArguments_eq, pieces_uncut _ uncut,
      argumentsOf_trimmed trimmed]
    rfl
  | @more argument others trimmed isPiece later ih =>
    cases others with
    | nil =>
      rw [List.intercalate_singleton, splitArguments_eq, pieces_uncut _ isPiece.uncut,
        argumentsOf_trimmed trimmed]
      rfl
    | cons next rest =>
      have shape : List.intercalate ", ".toList (argument :: next :: rest) =
          argument ++ ',' :: ' ' :: List.intercalate ", ".toList (next :: rest) := by
        simp [List.intercalate_cons_cons]
      rw [shape, splitArguments_eq, pieces_cut _ isPiece.uncut isPiece.closed,
        argumentsOf_trimmed trimmed, ← splitArguments_eq, splitArguments_cons_blank (by decide), ih]

theorem FallsInto.areArguments {source : Text} {cut : List Text} (fallsInto : FallsInto source cut) :
    AreArguments (argumentsOf cut) := by
  induction fallsInto with
  | @last piece uncut =>
    obtain ⟨-, -, -, -, -, trimmed⟩ := trim_parts piece
    by_cases blank : trim piece = []
    · rw [argumentsOf_blank blank]
      exact .none
    · rw [argumentsOf_filled blank]
      exact .last (trimmed blank) ((outside_trim piece).1 uncut)
  | @more piece rest others isPiece later ih =>
    obtain ⟨-, -, -, -, -, trimmed⟩ := trim_parts piece
    by_cases blank : trim piece = []
    · rw [argumentsOf_blank blank]
      exact ih
    · rw [argumentsOf_filled blank]
      exact .more (trimmed blank) isPiece.trim ih

theorem AreArguments.trimmed {arguments : List Text} (areArguments : AreArguments arguments) :
    ∀ argument ∈ arguments, IsTrimmed argument := by
  induction areArguments with
  | none => exact List.forall_mem_nil _
  | last trimmed uncut => exact List.forall_mem_singleton.mpr trimmed
  | more trimmed isPiece later ih => exact List.forall_mem_cons.mpr ⟨trimmed, ih⟩

def IsGap (text : Text) : Prop :=
  ∀ character ∈ text, character = ',' ∨ isBlank character = true

theorem IsGap.ofBlanks {run : Text} (blanks : IsBlanks run) : IsGap run :=
  fun character member => .inr (blanks character member)

/-- The elements stand one behind the other in the text, with nothing but commas and blanks around
them. -/
inductive Scattered : Text → List Text → Prop where
  | gap {gap : Text} (isGap : IsGap gap) : Scattered gap []
  | element {gap rest : Text} {others : List Text} (isGap : IsGap gap) (argument : Text)
      (later : Scattered rest others) : Scattered (gap ++ (argument ++ rest)) (argument :: others)

theorem Scattered.behindGap {gap rest : Text} {arguments : List Text} (isGap : IsGap gap)
    (scattered : Scattered rest arguments) : Scattered (gap ++ rest) arguments := by
  cases scattered with
  | gap isGapRest => exact .gap (List.forall_mem_append.mpr ⟨isGap, isGapRest⟩)
  | element isGapNext argument later =>
    rw [← List.append_assoc]
    exact .element (List.forall_mem_append.mpr ⟨isGap, isGapNext⟩) argument later

theorem FallsInto.scattered {source : Text} {cut : List Text} (fallsInto : FallsInto source cut) :
    Scattered source (argumentsOf cut) := by
  induction fallsInto with
  | @last piece uncut =>
    obtain ⟨front, back, same, blanksFront, blanksBack, -⟩ := trim_parts piece
    by_cases blank : trim piece = []
    · rw [argumentsOf_blank blank]
      rw [blank, List.nil_append] at same
      rw [same]
      exact .gap (IsGap.ofBlanks (isBlanks_append blanksFront blanksBack))
    · rw [argumentsOf_filled blank]
      have element := Scattered.element (IsGap.ofBlanks blanksFront) (trim piece)
        (Scattered.gap (IsGap.ofBlanks blanksBack))
      rwa [← same] at element
  | @more piece rest others isPiece later ih =>
    obtain ⟨front, back, same, blanksFront, blanksBack, -⟩ := trim_parts piece
    have isGap : IsGap (back ++ [',']) := by
      refine List.forall_mem_append.mpr ⟨IsGap.ofBlanks blanksBack, ?_⟩
      exact List.forall_mem_singleton.mpr (.inl rfl)
    have behindPiece : Scattered (back ++ ',' :: rest) (argumentsOf others) := by
      have extended := ih.behindGap isGap
      rwa [List.append_assoc] at extended
    by_cases blank : trim piece = []
    · rw [argumentsOf_blank blank]
      rw [blank, List.nil_append] at same
      rw [same, List.append_assoc]
      exact behindPiece.behindGap (IsGap.ofBlanks blanksFront)
    · rw [argumentsOf_filled blank]
      have element := Scattered.element (IsGap.ofBlanks blanksFront) (trim piece) behindPiece
      rwa [← List.append_assoc, ← List.append_assoc, List.append_assoc front, ← same] at element

/-- Read at a depth, the text closes every bracket and every quote that it opens, and the brackets
of the depth; it closes no other bracket. A quote is closed by the next one of its kind. No comma
stands at depth zero outside quotes. -/
inductive Closes : Nat → Text → Prop where
  | done : Closes 0 []
  | plain {depth : Nat} {character : Char} {rest : Text} (noQuote : isQuote character = false)
      (noOpening : isOpening character = false) (noClosing : isClosing character = false)
      (noComma : character = ',' → 0 < depth) (later : Closes depth rest) :
      Closes depth (character :: rest)
  | quoted {depth : Nat} {quote : Char} {run rest : Text} (isQuote : isQuote quote = true)
      (inside : quote ∉ run) (later : Closes depth rest) :
      Closes depth (quote :: (run ++ quote :: rest))
  | opening {depth : Nat} {character : Char} {rest : Text} (isOpening : isOpening character = true)
      (later : Closes (depth + 1) rest) : Closes depth (character :: rest)
  | closing {depth : Nat} {character : Char} {rest : Text} (isClosing : isClosing character = true)
      (later : Closes depth rest) : Closes (depth + 1) (character :: rest)

theorem quoted_run (depth : Nat) {quote : Char} {run : Text} (inside : quote ∉ run) :
    (⟨depth, some quote⟩ : Nesting).behind run = ⟨depth, some quote⟩ ∧
      (⟨depth, some quote⟩ : Nesting).IsUncut run := by
  induction run with
  | nil => exact ⟨rfl, trivial⟩
  | cons character rest ih =>
    obtain ⟨apart, later⟩ := List.ne_and_not_mem_of_not_mem_cons inside
    have kept := after_quoted depth quote character
    rw [if_neg apart.symm] at kept
    obtain ⟨behindRest, uncutRest⟩ := ih later
    refine ⟨?_, ?_, ?_⟩
    · rw [Nesting.behind, List.foldl_cons, kept]
      exact behindRest
    · simp [isCut, outside]
    · rwa [kept]

theorem isUncut_cons {nesting : Nesting} {character : Char} {rest : Text}
    (noComma : character = ',' → nesting ≠ outside)
    (later : (nesting.after character).IsUncut rest) : nesting.IsUncut (character :: rest) := by
  refine ⟨?_, later⟩
  rw [Bool.eq_false_iff, ne_eq, isCut_eq_true_iff]
  exact fun cut => noComma cut.1 cut.2

theorem Closes.isPiece {depth : Nat} {text : Text} (closes : Closes depth text) :
    (⟨depth, none⟩ : Nesting).IsUncut text ∧ (⟨depth, none⟩ : Nesting).behind text = outside := by
  induction closes with
  | done => exact ⟨trivial, rfl⟩
  | @plain depth character rest noQuote noOpening noClosing noComma later ih =>
    have kept : (⟨depth, none⟩ : Nesting).after character = ⟨depth, none⟩ := by
      simp [Nesting.after, noQuote, noOpening, noClosing]
    refine ⟨isUncut_cons ?_ (by rw [kept]; exact ih.1), ?_⟩
    · intro comma same
      exact Nat.ne_of_gt (noComma comma) (congrArg Nesting.depth same)
    · rw [Nesting.behind, List.foldl_cons, kept]
      exact ih.2
  | @quoted depth quote run rest isQuote inside later ih =>
    have opens : (⟨depth, none⟩ : Nesting).after quote = ⟨depth, some quote⟩ := by
      simp [Nesting.after, isQuote]
    have ends := after_quoted depth quote quote
    rw [if_pos rfl] at ends
    have noComma : quote ≠ ',' := by
      rintro rfl
      cases isQuote
    obtain ⟨behindRun, uncutRun⟩ := quoted_run depth inside
    constructor
    · refine isUncut_cons (fun comma => absurd comma noComma) ?_
      rw [opens, isUncut_append, behindRun]
      refine ⟨uncutRun, isUncut_cons (fun comma => absurd comma noComma) ?_⟩
      rw [ends]
      exact ih.1
    · rw [Nesting.behind, List.foldl_cons, opens, ← Nesting.behind, behind_append, behindRun,
        Nesting.behind, List.foldl_cons, ends]
      exact ih.2
  | @opening depth character rest isOpening later ih =>
    have deeper : (⟨depth, none⟩ : Nesting).after character = ⟨depth + 1, none⟩ := by
      rcases (isOpening_eq_true_iff _).mp isOpening with rfl | rfl | rfl <;> rfl
    refine ⟨isUncut_cons ?_ (by rw [deeper]; exact ih.1), ?_⟩
    · rintro rfl
      cases isOpening
    · rw [Nesting.behind, List.foldl_cons, deeper]
      exact ih.2
  | @closing depth character rest isClosing later ih =>
    have shallower : (⟨depth + 1, none⟩ : Nesting).after character = ⟨depth, none⟩ := by
      rcases (isClosing_eq_true_iff _).mp isClosing with rfl | rfl | rfl <;> rfl
    refine ⟨isUncut_cons ?_ (by rw [shallower]; exact ih.1), ?_⟩
    · rintro rfl
      cases isClosing
    · rw [Nesting.behind, List.foldl_cons, shallower]
      exact ih.2

theorem areArguments_of_closes {arguments : List Text}
    (wellFormed : ∀ argument ∈ arguments, IsTrimmed argument ∧ Closes 0 argument) :
    AreArguments arguments := by
  induction arguments with
  | nil => exact .none
  | cons argument others ih =>
    obtain ⟨⟨trimmed, closes⟩, later⟩ := List.forall_mem_cons.mp wellFormed
    exact .more trimmed ⟨closes.isPiece.1, closes.isPiece.2⟩ (ih later)

/-- Splitting undoes joining where every argument closes what it opens. Whatever the source, what
splitting gives is given again when it is joined and split; no argument is empty or has a blank at
an end, and the arguments stand in the source in their order, with nothing but commas and blanks
around them. -/
theorem splitting_undoes_joining :
    (∀ arguments : List Text, (∀ argument ∈ arguments, IsTrimmed argument ∧ Closes 0 argument) →
      splitArguments (List.intercalate ", ".toList arguments) = arguments) ∧
    ∀ source : Text,
      splitArguments (List.intercalate ", ".toList (splitArguments source)) = splitArguments source ∧
        (∀ argument ∈ splitArguments source, IsTrimmed argument) ∧
        Scattered source (splitArguments source) := by
  constructor
  · intro arguments wellFormed
    exact (areArguments_of_closes wellFormed).splitArguments_intercalate
  · intro source
    have fallsInto := fallsInto_pieces source
    have areArguments : AreArguments (splitArguments source) := fallsInto.areArguments
    exact ⟨areArguments.splitArguments_intercalate, areArguments.trimmed, fallsInto.scattered⟩

/-- A call with two arguments, and a quoted comma behind an opening bracket. -/
def separateArguments : List Text :=
  ["f(a, b)".toList, "'(,'".toList]

theorem separateArguments_wellFormed :
    ∀ argument ∈ separateArguments, IsTrimmed argument ∧ Closes 0 argument := by
  have call : Closes 0 "f(a, b)".toList :=
    .plain rfl rfl rfl (by decide) <| .opening rfl <| .plain rfl rfl rfl (by decide) <|
      .plain rfl rfl rfl (by decide) <| .plain rfl rfl rfl (by decide) <|
      .plain rfl rfl rfl (by decide) <| .closing rfl .done
  have quotation : Closes 0 "'(,'".toList :=
    .quoted rfl (show '\x27' ∉ "(,".toList by decide) .done
  refine List.forall_mem_cons.mpr ⟨⟨⟨by decide, by decide, by decide⟩, call⟩, ?_⟩
  exact List.forall_mem_singleton.mpr ⟨⟨by decide, by decide, by decide⟩, quotation⟩

def unclosedSource : Text :=
  "x),, y, (z, 'w ".toList

theorem separateArguments_split_again :
    (∀ argument ∈ separateArguments, IsTrimmed argument ∧ Closes 0 argument) ∧
      splitArguments "f(a, b), '(,'".toList = separateArguments ∧
      splitArguments unclosedSource = ["x)".toList, "y".toList, "(z, 'w".toList] ∧
      splitArguments "x), y, (z, 'w".toList = splitArguments unclosedSource := by
  obtain ⟨ofJoined, ofSource⟩ := splitting_undoes_joining
  refine ⟨separateArguments_wellFormed, ofJoined _ separateArguments_wellFormed, ?_, ?_⟩
  · decide
  · exact (ofSource unclosedSource).1

end TreeTemplate.Markup
