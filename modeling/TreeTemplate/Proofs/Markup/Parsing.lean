import TreeTemplate.Proofs.Markup.Grammar
import TreeTemplate.Proofs.Markup.Spelling

/-!
# Parsing as the reader does

Each part of the reader does what parsing its rule does, with choices in order and repetitions
greedy, also where it fails. The reader keeps the open elements on a stack where parsing descends
into rules, so the two are compared along the stack: parsing closes the open elements one after the
other, or fails in one of them, and then in all of those around it.
-/
set_option autoImplicit false

namespace TreeTemplate.Markup

open Text Pattern

theorem runs_exactly (character : Char) (rest : Text) :
    Runs (exactly character) (character :: rest) (some rest) :=
  .one (decide_eq_true rfl)

theorem fails_exactly {character : Char} {source : Text}
    (absent : ∀ rest, source ≠ character :: rest) : Runs (exactly character) source none := by
  cases source with
  | nil => exact .atEnd
  | cons first rest =>
    refine .other (decide_eq_false ?_)
    rintro rfl
    exact absent rest rfl

theorem fails_pair {first second : Char} {source : Text}
    (absent : ∀ rest, source ≠ first :: second :: rest) :
    Runs (.chain (exactly first) (exactly second)) source none := by
  cases source with
  | nil => exact .broken .atEnd
  | cons character rest =>
    by_cases same : character = first
    · subst same
      refine .chain (runs_exactly character rest) (fails_exactly ?_)
      rintro others rfl
      exact absent others rfl
    · exact .broken (.other (decide_eq_false same))

theorem runs_run {repeated : Pattern} {inClass : Char → Bool}
    (single : ∀ source outcome, Runs (.one inClass) source outcome → Runs repeated source outcome)
    (source : Text) : Runs (.many repeated) source (some (source.dropWhile inClass)) := by
  induction source with
  | nil => exact .stop (single _ _ .atEnd)
  | cons first rest ih =>
    rw [List.dropWhile_cons]
    split
    · rename_i isIn
      exact .more (single _ _ (.one isIn)) ih
    · rename_i isOut
      exact .stop (single _ _ (.other (Bool.eq_false_iff.mpr isOut)))

theorem runs_space (source : Text) (outcome : Option Text)
    (runs : Runs (.one isSpace) source outcome) : Runs (.rule .space) source outcome :=
  .rule runs

theorem runs_spaces (source : Text) : Runs spaces source (some (source.dropWhile isSpace)) :=
  runs_run runs_space source

theorem runs_name (starts continues : Char → Bool) (source : Text) :
    Runs (.chain (.one starts) (.many (.one continues))) source
      ((readName? starts continues source).map Prod.snd) := by
  cases source with
  | nil => exact .broken .atEnd
  | cons first rest =>
    rw [readName?]
    split
    · rename_i start
      exact .chain (.one start) (runs_run (fun _ _ => id) rest)
    · rename_i other
      exact .broken (.other (Bool.eq_false_iff.mpr other))

theorem runs_tagName {text tag afterTag : Text}
    (named : readName? startsTagName continuesTagName text = some (tag, afterTag)) :
    Runs (.rule .tagName) text (some afterTag) := by
  have name := runs_name startsTagName continuesTagName text
  rw [named] at name
  exact .rule name

theorem fails_tagName {text : Text}
    (unnamed : readName? startsTagName continuesTagName text = none) :
    Runs (.rule .tagName) text none := by
  have name := runs_name startsTagName continuesTagName text
  rw [unnamed] at name
  exact .rule name

theorem runs_sigil (source : Text) :
    Runs (optional (.rule .attributePrefix)) source (some (readSigil source).2) := by
  unfold readSigil
  split
  · exact .left (.rule (.left (.chain (runs_exactly ':' _) (runs_exactly '.' _))))
  · rename_i rest undotted
    have both : Runs (.chain (exactly ':') (exactly '.')) (':' :: rest) none := by
      refine fails_pair ?_
      intro others same
      exact undotted others (List.cons.inj same).2
    exact .left (.rule (.right both (.left (runs_exactly ':' rest))))
  · rename_i rest
    have colon : Runs (exactly ':') ('@' :: rest) none := fails_exactly (by simp)
    exact .left (.rule (.right (.broken colon) (.right colon (.left (runs_exactly '@' rest)))))
  · rename_i rest
    have colon : Runs (exactly ':') ('.' :: rest) none := fails_exactly (by simp)
    have atSign : Runs (exactly '@') ('.' :: rest) none := fails_exactly (by simp)
    exact .left (.rule (.right (.broken colon) (.right colon (.right atSign (runs_exactly '.' rest)))))
  · rename_i noColon noAt noDot
    have colon := fails_exactly noColon
    exact .right (.rule (.right (.broken colon)
      (.right colon (.right (fails_exactly noAt) (fails_exactly noDot))))) .nothing

theorem runs_quoted {name : Rule} {quote : Char} (body : name.pattern = .many (except quote))
    (quoted : Text) :
    Runs (.chain (exactly quote) (.chain (.rule name) (exactly quote))) (quote :: quoted)
      ((readQuoted? quote quoted).map Prod.snd) := by
  have inside : Runs (.rule name) quoted
      (some (quoted.dropWhile fun character => character ≠ quote)) := by
    refine .rule ?_
    rw [body]
    exact runs_run (fun _ _ => id) quoted
  refine .chain (runs_exactly quote quoted) (.chain inside ?_)
  have ends : EndsBefore (fun character => character ≠ quote)
      (quoted.dropWhile fun character => character ≠ quote) := endsBefore_dropWhile quoted
  rw [readQuoted?]
  split
  · rename_i unclosed
    rw [unclosed]
    exact .atEnd
  · rename_i first rest found
    rw [found] at ends ⊢
    have same : first = quote := by simpa using ends first rfl
    rw [same]
    exact runs_exactly quote rest

theorem runs_double (quoted : Text) :
    Runs (.rule .attributeValue) ('\x22' :: quoted) ((readQuoted? '\x22' quoted).map Prod.snd) := by
  have double : Runs (.chain (exactly '\x22') (.chain (.rule .doubleQuoted) (exactly '\x22')))
      ('\x22' :: quoted) ((readQuoted? '\x22' quoted).map Prod.snd) := runs_quoted rfl quoted
  refine .rule ?_
  cases read : readQuoted? '\x22' quoted with
  | none =>
    rw [read] at double
    exact .right double (.broken (fails_exactly (by simp)))
  | some found =>
    rw [read] at double
    exact .left double

theorem runs_single (quoted : Text) :
    Runs (.rule .attributeValue) ('\x27' :: quoted) ((readQuoted? '\x27' quoted).map Prod.snd) :=
  .rule (.right (.broken (fails_exactly (by simp))) (runs_quoted rfl quoted))

theorem runs_assigned (source : Text) :
    Runs assigned source ((readValue? source).map Prod.snd) := by
  rw [readValue?]
  refine .chain (runs_spaces source) ?_
  split
  · rename_i afterEquals found
    rw [found]
    refine .chain (runs_exactly '=' afterEquals) (.chain (runs_spaces afterEquals) ?_)
    split
    · rename_i quoted opened
      rw [opened]
      exact runs_double quoted
    · rename_i quoted opened
      rw [opened]
      exact runs_single quoted
    · rename_i noDouble noSingle
      exact .rule (.right (.broken (fails_exactly noDouble)) (.broken (fails_exactly noSingle)))
  · rename_i unassigned
    exact .broken (fails_exactly unassigned)

theorem runs_attribute (source : Text) :
    Runs (.rule .attribute) source ((readItem? source).map Prod.snd) := by
  refine .rule ?_
  rw [readItem?]
  refine .chain (runs_sigil source) ?_
  have name : Runs (.rule .attributeName) (readSigil source).2 _ :=
    .rule (runs_name startsItemName continuesItemName _)
  dsimp only
  split
  · rename_i unnamed
    rw [unnamed] at name
    exact .broken name
  · rename_i ownName afterName named
    rw [named] at name
    refine .chain name ?_
    have value := runs_assigned afterName
    split
    · rename_i content rest valued
      rw [valued] at value
      exact .left value
    · rename_i unvalued
      rw [unvalued] at value
      exact .right value .nothing

theorem runs_gap {first : Char} (others : Text) (space : isSpace first = true) :
    Runs (oneOrMore (.rule .space)) (first :: others) (some (others.dropWhile isSpace)) :=
  .chain (runs_space _ _ (.one space)) (runs_spaces others)

theorem runs_attributes (source : Text) : Runs attributes source (some (readItems source).2) := by
  fun_induction readItems source with
  | case1 => exact .stop (.broken (.broken (runs_space _ _ .atEnd)))
  | case2 first others space nothing =>
    have item := runs_attribute (others.dropWhile isSpace)
    rw [nothing] at item
    exact .stop (.chain (runs_gap others space) item)
  | case3 first others space item rest read items after equation ih =>
    have written := runs_attribute (others.dropWhile isSpace)
    rw [read] at written
    rw [equation] at ih
    exact .more (.chain (runs_gap others space) written) ih
  | case4 first others noSpace =>
    have outside : isSpace first = false := Bool.eq_false_iff.mpr noSpace
    exact .stop (.broken (.broken (runs_space _ _ (.other outside))))

/-- What the rule of elements does behind the bracket and the name of a tag. -/
theorem runs_tag {text tag afterTag : Text} {outcome : Option Text}
    (named : readName? startsTagName continuesTagName text = some (tag, afterTag))
    (ended : Runs elementEnd ((readItems afterTag).2.dropWhile isSpace) outcome) :
    Runs (.rule .element) ('<' :: text) outcome :=
  .rule (.chain (runs_exactly '<' text) (.chain (runs_tagName named)
    (.chain (runs_attributes afterTag) (.chain (runs_spaces _) ended))))

theorem element_fails {text stuck : Text} (failed : readStartTag text = .error stuck) :
    Runs (.rule .element) ('<' :: text) none := by
  rw [readStartTag] at failed
  split at failed
  · rename_i unnamed
    exact .rule (.chain (runs_exactly '<' text) (.broken (fails_tagName unnamed)))
  · rename_i tag afterTag named
    refine runs_tag named ?_
    dsimp only at failed
    split at failed
    · rename_i stuckAt unended
      rw [readTagEnd] at unended
      split at unended
      · cases unended
      · cases unended
      · rename_i noClosing noOpening
        exact .right (.rule (fails_pair noClosing)) (.broken (fails_exactly noOpening))
    · cases failed

theorem element_starts {text after : Text} {start : StartTag}
    (read : readStartTag text = .ok (start, after)) {outcome : Option Text}
    (inside : start.closesItself = false →
      Runs (.chain (.many (.rule .node)) (.rule .closeTag)) after outcome)
    (closed : start.closesItself = true → outcome = some after) :
    Runs (.rule .element) ('<' :: text) outcome := by
  rw [readStartTag] at read
  split at read
  · cases read
  · rename_i tag afterTag named
    refine runs_tag named ?_
    dsimp only at read
    split at read
    · cases read
    · rename_i closesItself rest ended
      obtain ⟨rfl, rfl⟩ := Prod.mk.inj (Except.ok.inj read)
      rw [readTagEnd] at ended
      split at ended
      · rename_i found
        obtain ⟨rfl, rfl⟩ := Prod.mk.inj (Except.ok.inj ended)
        rw [found, closed rfl]
        exact .left (.rule (.chain (runs_exactly '/' _) (runs_exactly '>' _)))
      · rename_i found
        obtain ⟨rfl, rfl⟩ := Prod.mk.inj (Except.ok.inj ended)
        rw [found]
        refine .right (.rule (.broken (fails_exactly (by simp)))) ?_
        exact .chain (runs_exactly '>' _) (inside rfl)
      · cases ended

theorem runs_closeTag (text : Text) :
    Runs (.rule .closeTag) ('<' :: '/' :: text) ((readEndTag text).toOption.map Prod.snd) := by
  refine .rule (.chain (runs_exactly '<' _) (.chain (runs_exactly '/' text) ?_))
  rw [readEndTag]
  split
  · rename_i unnamed
    exact .broken (fails_tagName unnamed)
  · rename_i tag afterTag named
    refine .chain (runs_tagName named) (.chain (runs_spaces afterTag) ?_)
    split
    · rename_i rest found
      rw [found]
      exact runs_exactly '>' rest
    · rename_i unclosed
      exact fails_exactly unclosed

/-! ## Nodes -/

theorem runs_element_node {text : Text} {outcome : Option Text}
    (element : Runs (.rule .element) ('<' :: text) outcome) :
    Runs (.rule .node) ('<' :: text) outcome := by
  cases outcome with
  | some rest => exact .rule (.left element)
  | none => exact .rule (.right element (.rule (.broken (.other rfl))))

theorem runs_text_node {first : Char} (rest : Text) (apart : first ≠ '<') :
    Runs (.rule .node) (first :: rest)
      (some (rest.dropWhile fun character => character ≠ '<')) := by
  have noElement : Runs (.rule .element) (first :: rest) none := by
    refine .rule (.broken (fails_exactly ?_))
    intro others same
    exact apart (List.cons.inj same).1
  exact .rule (.right noElement
    (.rule (.chain (.one (decide_eq_true apart)) (runs_run (fun _ _ => id) rest))))

theorem fails_node_over : Runs (.rule .node) [] none :=
  .rule (.right (.rule (.broken .atEnd)) (.rule (.broken .atEnd)))

theorem fails_node_end (rest : Text) : Runs (.rule .node) ('<' :: '/' :: rest) none :=
  runs_element_node (element_fails rfl)

inductive Ends : Nat → Text → Bool → Prop where
  | finished {text : Text} (inside : Runs Rule.document.pattern text (some [])) : Ends 0 text true
  | unfinished {text : Text} (fails : Runs Rule.document.pattern text none) : Ends 0 text false
  | closed {depth : Nat} {text rest : Text} {well : Bool}
      (inside : Runs (.chain (.many (.rule .node)) (.rule .closeTag)) text (some rest))
      (outside : Ends depth rest well) : Ends (depth + 1) text well
  | unclosed {depth : Nat} {text : Text}
      (fails : Runs (.chain (.many (.rule .node)) (.rule .closeTag)) text none) :
      Ends (depth + 1) text false

theorem runs_behind_node {last : Pattern} {text middle : Text} {outcome : Option Text}
    (node : Runs (.rule .node) text (some middle))
    (behind : Runs (.chain (.many (.rule .node)) last) middle outcome) :
    Runs (.chain (.many (.rule .node)) last) text outcome := by
  cases behind with
  | chain before behind => exact .chain (.more node before) behind
  | broken fails => exact .broken (.more node fails)

theorem Ends.behind_node {depth : Nat} {text middle : Text} {well : Bool}
    (node : Runs (.rule .node) text (some middle)) (ends : Ends depth middle well) :
    Ends depth text well := by
  cases ends with
  | finished inside => exact .finished (runs_behind_node node inside)
  | unfinished fails => exact .unfinished (runs_behind_node node fails)
  | closed inside outside => exact .closed (runs_behind_node node inside) outside
  | unclosed fails => exact .unclosed (runs_behind_node node fails)

theorem ends_stuck {first : Char} {rest : Text} (depth : Nat)
    (fails : Runs (.rule .node) (first :: rest) none)
    (noEnd : ∀ others, first :: rest ≠ '<' :: '/' :: others) : Ends depth (first :: rest) false := by
  cases depth with
  | zero => exact .unfinished (.chain (.stop fails) .unfinished)
  | succ depth =>
    refine .unclosed (.chain (.stop fails) (.rule ?_))
    by_cases same : first = '<'
    · subst same
      refine .chain (runs_exactly '<' rest) (.broken (fails_exactly ?_))
      rintro others rfl
      exact noEnd others rfl
    · refine .broken (fails_exactly ?_)
      intro others equal
      exact same (List.cons.inj equal).1

/-- The reader goes wrong exactly where parsing does. -/
theorem ends_readForest (frames : List Frame) (done : List Written) (text : Text) :
    Ends frames.length text (readForest frames done text).toBool := by
  -- The frames of the reader are the elements that parsing has open.
  fun_induction readForest frames done text with
  | case1 frames done isEmpty =>
    obtain rfl := List.isEmpty_iff.mp isEmpty
    exact .finished (.chain (.stop fails_node_over) .finish)
  | case2 frames done unclosed =>
    cases frames with
    | nil => exact absurd rfl unclosed
    | cons frame outer => exact .unclosed (.chain (.stop fails_node_over) (.rule (.broken .atEnd)))
  | case3 done rest => exact .unfinished (.chain (.stop (fails_node_end rest)) .unfinished)
  | case4 done rest frame outer stuck failed =>
    have closes := runs_closeTag rest
    rw [failed] at closes
    exact .unclosed (.chain (.stop (fails_node_end rest)) closes)
  | case5 done rest frame outer closing after read ih =>
    have closes := runs_closeTag rest
    rw [read] at closes
    rw [List.unattach_reverse, List.unattach_attach] at ih
    exact .closed (.chain (.stop (fails_node_end rest)) closes) ih
  | case6 frames done rest noSlash stuck failed =>
    refine ends_stuck _ (runs_element_node (element_fails failed)) ?_
    intro others same
    exact noSlash others (List.cons.inj same).2
  | case7 frames done rest noSlash start after read closes ih =>
    have element : Runs (.rule .element) ('<' :: rest) (some after) := by
      refine element_starts read ?_ (fun _ => rfl)
      intro opens
      rw [closes] at opens
      cases opens
    exact ih.behind_node (runs_element_node element)
  | case8 frames done rest noSlash start after read opens ih =>
    have element {outcome : Option Text}
        (inside : Runs (.chain (.many (.rule .node)) (.rule .closeTag)) after outcome) :
        Runs (.rule .element) ('<' :: rest) outcome :=
      element_starts read (fun _ => inside) (fun closes => absurd closes opens)
    -- The new element is closed, and the outer ones go on; or it is not, and they are stuck before it.
    generalize (readForest (⟨start.tag, start.items, done⟩ :: frames) [] after).toBool = well at ih ⊢
    cases ih with
    | closed inside outside => exact outside.behind_node (runs_element_node (element inside))
    | unclosed fails =>
      refine ends_stuck _ (runs_element_node (element fails)) ?_
      intro others same
      exact noSlash others (List.cons.inj same).2
  | case9 frames done first rest noEnd apart ih =>
    exact ih.behind_node (runs_text_node rest apart)

theorem runs_document (source : Text) :
    Runs (.rule .document) source (if (readForest [] [] source).toBool then some [] else none) := by
  have ends := ends_readForest [] [] source
  generalize (readForest [] [] source).toBool = well at ends ⊢
  cases ends with
  | finished inside => exact .rule inside
  | unfinished fails => exact .rule fails

end TreeTemplate.Markup
