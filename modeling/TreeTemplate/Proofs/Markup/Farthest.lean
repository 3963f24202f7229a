import TreeTemplate.Proofs.Markup.Misses
import TreeTemplate.Proofs.Markup.Mistakes

/-!
# The farthest miss

Where a source is not markup, the reader is stuck at the farthest of the places at which parsing tries
a rule that is reported and fails. Parsing tries more than the reader does, and gives up much of it,
so that each part comes with a place that none of its misses lies behind.
-/
set_option autoImplicit false

namespace TreeTemplate.Markup

open Text Pattern

theorem quiet_name (starts continues : Char → Bool) :
    Quiet (.chain (.one starts) (.many (.one continues))) :=
  .chain (.one starts) (.many (.one continues))

theorem quiet_tagName : Quiet Rule.tagName.pattern :=
  quiet_name startsTagName continuesTagName

theorem within_tagName (source : Text) : Within (.rule .tagName) source source :=
  within_leaf quiet_tagName

theorem within_selfClose (source : Text) : Within (.rule .selfClose) source source :=
  within_leaf (.chain (.one _) (.one _))

theorem quiet_attributePrefix : Quiet Rule.attributePrefix.pattern :=
  .either (.chain (.one _) (.one _)) (.either (.one _) (.either (.one _) (.one _)))

/-- An item is missed where it is tried, or behind its sigil. -/
theorem within_attribute (source : Text) :
    Within (.rule .attribute) source (readSigil source).2 := by
  have order : (readSigil source).2 <:+ source := (runs_sigil source).isSuffix
  have sigil : Within (optional (.rule .attributePrefix)) source source :=
    (within_leaf quiet_attributePrefix).either Quiet.nothing.within
  have name : Within (.rule .attributeName) (readSigil source).2 (readSigil source).2 :=
    within_leaf (quiet_name _ _)
  exact .rule ((sigil.weaken order).chain (runs_sigil source)
    (name.chain_quiet (.either .assigned .nothing))) order

theorem readItem?_isSuffix {source rest : Text} {item : Item}
    (read : readItem? source = some (item, rest)) : rest <:+ (readSigil source).2 := by
  have name := runs_name startsItemName continuesItemName (readSigil source).2
  rw [readItem?] at read
  dsimp only at read
  split at read
  · cases read
  · rename_i ownName afterName named
    rw [named] at name
    have value := runs_assigned afterName
    split at read
    · rename_i content after valued
      rw [valued] at value
      obtain ⟨-, rfl⟩ := Prod.mk.inj (Option.some.inj read)
      exact value.isSuffix.trans name.isSuffix
    · obtain ⟨-, rfl⟩ := Prod.mk.inj (Option.some.inj read)
      exact name.isSuffix

theorem unnamed_of_readItem? {source : Text} (nothing : readItem? source = none) :
    readName? startsItemName continuesItemName (readSigil source).2 = none := by
  rw [readItem?] at nothing
  dsimp only at nothing
  split at nothing
  · assumption
  · split at nothing <;> cases nothing

/-- The last place at which a part of a tag is tried behind its items: behind the sigil of an item for
which there are spaces, or at the end of the tag. -/
def lastTry (text : Text) : Text :=
  if (text.dropWhile isSpace).length < text.length then (readSigil (text.dropWhile isSpace)).2
  else text.dropWhile isSpace

theorem lastTry_isSuffix (text : Text) : lastTry text <:+ text.dropWhile isSpace := by
  rw [lastTry]
  split
  · exact (runs_sigil _).isSuffix
  · exact List.suffix_refl _

theorem lastTry_of_bare {text : Text}
    (bare : (readSigil (text.dropWhile isSpace)).2 = text.dropWhile isSpace) :
    lastTry text = text.dropWhile isSpace := by
  rw [lastTry, bare, ite_self]

theorem lastTry_gap {first : Char} (others : Text) (space : isSpace first = true) :
    lastTry (first :: others) = (readSigil (others.dropWhile isSpace)).2 := by
  have shorter := length_dropWhile_le isSpace others
  rw [lastTry, List.dropWhile_cons_of_pos space, if_pos]
  simp only [List.length_cons]
  omega

theorem quiet_gap : Quiet (oneOrMore (.rule .space)) :=
  .chain (.rule rfl (.one isSpace)) .spaces

theorem within_attributes (source : Text) :
    Within attributes source (lastTry (readItems source).2) := by
  fun_induction readItems source with
  | case1 =>
    have fails : Runs (oneOrMore (.rule .space)) [] none := .broken (runs_space _ _ .atEnd)
    exact (quiet_gap.within.broken fails).stop (.broken fails)
  | case2 first others space nothing =>
    have item := runs_attribute (others.dropWhile isSpace)
    rw [nothing] at item
    have gap := runs_gap others space
    rw [lastTry_gap others space]
    exact (quiet_gap.within.chain gap (within_attribute _)).stop (.chain gap item)
  | case3 first others space item rest read items after equation ih =>
    have written := runs_attribute (others.dropWhile isSpace)
    have behind := runs_attributes rest
    rw [read] at written
    rw [equation] at ih behind
    have gap := runs_gap others space
    have spaces : after.dropWhile isSpace <:+ after := List.dropWhile_suffix _
    -- The item is there, so that whatever was missed in it lies before the place.
    have order : lastTry after <:+ (readSigil (others.dropWhile isSpace)).2 :=
      (lastTry_isSuffix after).trans
        (spaces.trans (behind.isSuffix.trans (readItem?_isSuffix read)))
    exact (quiet_gap.within.chain gap ((within_attribute _).weaken order)).more
      (.chain gap written) ih
  | case4 first others noSpace =>
    have fails : Runs (oneOrMore (.rule .space)) (first :: others) none :=
      .broken (runs_space _ _ (.other (Bool.eq_false_iff.mpr noSpace)))
    exact (quiet_gap.within.broken fails).stop (.broken fails)

/-- Where spaces are left behind the items, one more item was tried, and missed behind its sigil. -/
theorem misses_attributes (source : Text)
    (gap : ((readItems source).2.dropWhile isSpace).length < (readItems source).2.length) :
    Misses attributes source (readSigil ((readItems source).2.dropWhile isSpace)).2 := by
  fun_induction readItems source with
  | case1 => exact absurd gap (Nat.lt_irrefl 0)
  | case2 first others space nothing =>
    have name := runs_name startsItemName continuesItemName (readSigil (others.dropWhile isSpace)).2
    rw [unnamed_of_readItem? nothing] at name
    rw [List.dropWhile_cons_of_pos space]
    exact .once (.second (runs_gap others space)
      (.rule (.second (runs_sigil _) (.first (.own rfl (.rule name))))))
  | case3 first others space item rest read items after equation ih =>
    have written := runs_attribute (others.dropWhile isSpace)
    rw [read] at written
    rw [equation] at ih
    exact .again (.chain (runs_gap others space) written) (ih gap)
  | case4 first others noSpace =>
    rw [List.dropWhile_cons_of_neg noSpace] at gap
    exact absurd gap (Nat.lt_irrefl _)

section Element
variable {text tag afterTag stuck limit : Text}

theorem misses_unnamed (unnamed : readName? startsTagName continuesTagName text = none) :
    Misses (.rule .element) ('<' :: text) text :=
  .rule (.second (runs_exactly '<' text) (.first (.own rfl (fails_tagName unnamed))))

theorem within_unnamed (unnamed : readName? startsTagName continuesTagName text = none) :
    Within (.rule .element) ('<' :: text) text :=
  .rule ((Quiet.one _).within.chain (runs_exactly '<' text)
    ((within_tagName text).broken (fails_tagName unnamed))) (List.suffix_cons '<' text)

/-- What is missed in an element is missed among its items or behind them. -/
theorem within_tag (named : readName? startsTagName continuesTagName text = some (tag, afterTag))
    (order : limit <:+ lastTry (readItems afterTag).2)
    (ended : Within elementEnd ((readItems afterTag).2.dropWhile isSpace) limit) :
    Within (.rule .element) ('<' :: text) limit := by
  have name := runs_tagName named
  have spaces := runs_spaces (readItems afterTag).2
  have behindTag : limit <:+ afterTag :=
    order.trans ((lastTry_isSuffix _).trans
      (spaces.isSuffix.trans (runs_attributes afterTag).isSuffix))
  have behindBracket : limit <:+ text := behindTag.trans name.isSuffix
  have tagName : Within (.rule .tagName) text limit := (within_tagName text).weaken behindBracket
  have items : Within attributes afterTag limit := (within_attributes afterTag).weaken order
  exact .rule ((Quiet.one _).within.chain (runs_exactly '<' text) (tagName.chain name
    (items.chain (runs_attributes afterTag) (Quiet.spaces.within.chain spaces ended))))
    (behindBracket.trans (List.suffix_cons '<' text))

theorem misses_tag (named : readName? startsTagName continuesTagName text = some (tag, afterTag))
    (ended : Misses elementEnd ((readItems afterTag).2.dropWhile isSpace) stuck) :
    Misses (.rule .element) ('<' :: text) stuck :=
  .rule (.second (runs_exactly '<' text) (.second (runs_tagName named)
    (.second (runs_attributes afterTag) (.second (runs_spaces _) ended))))

end Element

structure Farthest (pattern : Pattern) (source stuck : Text) : Prop where
  missed : Misses pattern source stuck
  within : Within pattern source stuck

theorem farthest_startTag {text stuck : Text} (failed : readStartTag text = .error stuck) :
    Farthest (.rule .element) ('<' :: text) stuck := by
  rw [readStartTag] at failed
  split at failed
  · rename_i unnamed
    obtain rfl := Except.error.inj failed
    exact ⟨misses_unnamed unnamed, within_unnamed unnamed⟩
  · rename_i tag afterTag named
    dsimp only at failed
    split at failed
    · rename_i stuckAt unended
      obtain rfl := Except.error.inj failed
      rw [readTagEnd] at unended
      split at unended
      · cases unended
      · cases unended
      · rename_i noClosing noOpening
        obtain rfl := Except.error.inj unended
        rw [← lastTry]
        have unclosed := fails_pair noClosing
        have order := lastTry_isSuffix (readItems afterTag).2
        constructor
        · by_cases gap : ((readItems afterTag).2.dropWhile isSpace).length <
              (readItems afterTag).2.length
          · rw [lastTry, if_pos gap]
            exact .rule (.second (runs_exactly '<' text) (.second (runs_tagName named)
              (.first (misses_attributes afterTag gap))))
          · rw [lastTry, if_neg gap]
            exact misses_tag named (.left (.own rfl (.rule unclosed)))
        · exact within_tag named (List.suffix_refl _) (((within_selfClose _).weaken order).either
            ((Quiet.one _).within.broken (fails_exactly noOpening)))
    · cases failed

/-- A start tag that is read has a name, and one of the two brackets behind its items. -/
theorem readStartTag_eq_ok {text after : Text} {start : StartTag}
    (read : readStartTag text = .ok (start, after)) :
    ∃ tag afterTag, readName? startsTagName continuesTagName text = some (tag, afterTag) ∧
      ((start.closesItself = true ∧ (readItems afterTag).2.dropWhile isSpace = '/' :: '>' :: after) ∨
        (start.closesItself = false ∧ (readItems afterTag).2.dropWhile isSpace = '>' :: after)) := by
  rw [readStartTag] at read
  split at read
  · cases read
  · rename_i tag afterTag named
    refine ⟨tag, afterTag, named, ?_⟩
    dsimp only at read
    split at read
    · cases read
    · rename_i closesItself rest ended
      obtain ⟨rfl, rfl⟩ := Prod.mk.inj (Except.ok.inj read)
      rw [readTagEnd] at ended
      split at ended
      · rename_i found
        obtain ⟨rfl, rfl⟩ := Prod.mk.inj (Except.ok.inj ended)
        exact Or.inl ⟨rfl, found⟩
      · rename_i found
        obtain ⟨rfl, rfl⟩ := Prod.mk.inj (Except.ok.inj ended)
        exact Or.inr ⟨rfl, found⟩
      · cases ended

theorem within_closed_start {text after : Text} {start : StartTag}
    (read : readStartTag text = .ok (start, after)) (closes : start.closesItself = true) :
    Within (.rule .element) ('<' :: text) after := by
  obtain ⟨tag, afterTag, named, ⟨-, ended⟩ | ⟨opens, -⟩⟩ := readStartTag_eq_ok read
  · have last : lastTry (readItems afterTag).2 = '/' :: '>' :: after := by
      rw [lastTry_of_bare (by rw [ended]; rfl), ended]
    have order : after <:+ '/' :: '>' :: after := ⟨['/', '>'], rfl⟩
    refine within_tag named (by rwa [last]) ?_
    have selfClose : Runs (.rule .selfClose) ('/' :: '>' :: after) (some after) :=
      .rule (.chain (runs_exactly '/' _) (runs_exactly '>' after))
    rw [ended]
    exact ((within_selfClose _).weaken order).left selfClose
  · rw [closes] at opens
    cases opens

section Opened
variable {text after limit place : Text} {start : StartTag}
  (read : readStartTag text = .ok (start, after)) (opens : start.closesItself = false)
include read opens

theorem within_opened (order : limit <:+ after)
    (inside : Within (.chain (.many (.rule .node)) (.rule .closeTag)) after limit) :
    Within (.rule .element) ('<' :: text) limit := by
  obtain ⟨tag, afterTag, named, ⟨closes, -⟩ | ⟨-, ended⟩⟩ := readStartTag_eq_ok read
  · rw [opens] at closes
    cases closes
  · have last : lastTry (readItems afterTag).2 = '>' :: after := by
      rw [lastTry_of_bare (by rw [ended]; rfl), ended]
    have behind : limit <:+ '>' :: after := order.trans (List.suffix_cons '>' after)
    refine within_tag named (by rwa [last]) ?_
    rw [ended]
    exact ((within_selfClose _).weaken behind).either
      ((Quiet.one _).within.chain (runs_exactly '>' after) inside)

theorem misses_opened
    (inside : Misses (.chain (.many (.rule .node)) (.rule .closeTag)) after place) :
    Misses (.rule .element) ('<' :: text) place := by
  obtain ⟨tag, afterTag, named, ⟨closes, -⟩ | ⟨-, ended⟩⟩ := readStartTag_eq_ok read
  · rw [opens] at closes
    cases closes
  · refine misses_tag named ?_
    rw [ended]
    exact .right (.rule (.broken (fails_exactly (by simp)))) (.second (runs_exactly '>' after) inside)

end Opened

/-! ## Nodes -/

section Nodes
variable {source text middle rest limit place : Text} {last : Pattern}

theorem within_node (element : Within (.rule .element) source limit) (order : limit <:+ source) :
    Within (.rule .node) source limit := by
  have leaf : Within (.rule .text) source source := within_leaf (.chain (.one _) (.many (.one _)))
  exact .rule (element.either (leaf.weaken order)) order

theorem Farthest.node (farthest : Farthest (.rule .element) source place) :
    Farthest (.rule .node) source place := by
  obtain ⟨missed, within⟩ := farthest
  exact ⟨.rule (.left missed), within_node within missed.isSuffix⟩

/-- Where an end tag stands, an element is tried, which gets as far as the slash. -/
theorem farthest_node_end (text : Text) :
    Farthest (.rule .node) ('<' :: '/' :: text) ('/' :: text) :=
  Farthest.node ⟨misses_unnamed rfl, within_unnamed rfl⟩

theorem within_text_node {first : Char} (apart : first ≠ '<') (order : limit <:+ first :: rest) :
    Within (.rule .node) (first :: rest) limit := by
  have fails : Runs (exactly '<') (first :: rest) none := by
    refine fails_exactly ?_
    intro others same
    exact apart (List.cons.inj same).1
  exact within_node (.rule ((Quiet.one _).within.broken fails) order) order

theorem Misses.behind_node (node : Runs (.rule .node) text (some middle))
    (misses : Misses (.chain (.many (.rule .node)) last) middle place) :
    Misses (.chain (.many (.rule .node)) last) text place := by
  cases misses with
  | first inside => exact .first (.again node inside)
  | second before behind => exact .second (.more node before) behind

theorem Within.behind_node (onWay : Within (.rule .node) text limit)
    (node : Runs (.rule .node) text (some middle))
    (behind : Within (.chain (.many (.rule .node)) last) middle limit) :
    Within (.chain (.many (.rule .node)) last) text limit := by
  intro place misses
  cases misses with
  | first inside =>
    cases inside with
    | once misses => exact onWay place misses
    | again before later =>
      obtain rfl := Option.some.inj (node.functional before)
      exact behind place (.first later)
  | second before later =>
    cases before with
    | stop fails => cases node.functional fails
    | more first others =>
      obtain rfl := Option.some.inj (node.functional first)
      exact behind place (.second others later)

theorem Farthest.behind_node (onWay : Within (.rule .node) text middle)
    (node : Runs (.rule .node) text (some middle))
    (behind : Farthest (.chain (.many (.rule .node)) last) middle place) :
    Farthest (.chain (.many (.rule .node)) last) text place :=
  ⟨behind.missed.behind_node node,
    (onWay.weaken behind.missed.isSuffix).behind_node node behind.within⟩

/-- The last node that is tried fails, and the pattern behind the nodes is tried in its place. -/
theorem Within.last_node (within : Within (.rule .node) source limit)
    (fails : Runs (.rule .node) source none) (behind : Within last source limit) :
    Within (.chain (.many (.rule .node)) last) source limit :=
  (within.stop fails).chain (.stop fails) behind

end Nodes

section EndTag
variable {text limit : Text}

theorem within_closeTag (name : Within (.rule .tagName) text limit)
    (order : limit <:+ '<' :: '/' :: text) :
    Within (.rule .closeTag) ('<' :: '/' :: text) limit := by
  have quiet : Quiet (.chain spaces (exactly '>')) := .chain .spaces (.one _)
  exact .rule ((Quiet.one _).within.chain (runs_exactly '<' _)
    ((Quiet.one _).within.chain (runs_exactly '/' text) (name.chain_quiet quiet))) order

theorem farthest_endTag {stuck : Text} (failed : readEndTag text = .error stuck) :
    Farthest (.chain (.many (.rule .node)) (.rule .closeTag)) ('<' :: '/' :: text) stuck := by
  have fails := fails_node_end text
  obtain ⟨missed, within⟩ := farthest_node_end text
  rw [readEndTag] at failed
  split at failed
  · rename_i unnamed
    obtain rfl := Except.error.inj failed
    have order : text <:+ '/' :: text := List.suffix_cons '/' text
    constructor
    · exact .second (.stop fails) (.rule (.second (runs_exactly '<' _)
        (.second (runs_exactly '/' text) (.first (.own rfl (fails_tagName unnamed))))))
    · exact (within.weaken order).last_node fails
        (within_closeTag (within_tagName text) (order.trans (List.suffix_cons '<' _)))
  · rename_i tag afterTag named
    split at failed
    · cases failed
    · obtain rfl := Except.error.inj failed
      constructor
      · exact .first (.once missed)
      · exact within.last_node fails
          (within_closeTag ((runs_tagName named).within_leaf quiet_tagName) (List.suffix_cons '<' _))

theorem readEndTag_isSuffix {tag rest : Text} (read : readEndTag text = .ok (tag, rest)) :
    rest <:+ text := by
  rw [readEndTag] at read
  split at read
  · cases read
  · rename_i own afterTag named
    have name := (runs_tagName named).isSuffix
    have spaces := (runs_spaces afterTag).isSuffix
    split at read
    · rename_i after found
      obtain ⟨-, rfl⟩ := Prod.mk.inj (Except.ok.inj read)
      rw [found] at spaces
      exact ((List.suffix_cons '>' after).trans spaces).trans name
    · cases read

theorem within_endTag {tag rest : Text} (read : readEndTag text = .ok (tag, rest)) :
    Within (.chain (.many (.rule .node)) (.rule .closeTag)) ('<' :: '/' :: text) rest := by
  have behind := readEndTag_isSuffix read
  have order : rest <:+ '/' :: text := behind.trans (List.suffix_cons '/' text)
  exact ((farthest_node_end text).within.weaken order).last_node (fails_node_end text)
    (within_closeTag ((within_tagName text).weaken behind) (order.trans (List.suffix_cons '<' _)))

end EndTag

/-- Where parsing is stuck for good, inside a number of open elements: at the farthest miss of the
element that it fails in, or of the document. -/
inductive Sticks : Nat → Text → Text → Prop where
  | document {text stuck : Text} (farthest : Farthest Rule.document.pattern text stuck) :
      Sticks 0 text stuck
  | unclosed {depth : Nat} {text stuck : Text}
      (fails : Runs (.chain (.many (.rule .node)) (.rule .closeTag)) text none)
      (farthest : Farthest (.chain (.many (.rule .node)) (.rule .closeTag)) text stuck) :
      Sticks (depth + 1) text stuck
  | closed {depth : Nat} {text rest stuck : Text}
      (runs : Runs (.chain (.many (.rule .node)) (.rule .closeTag)) text (some rest))
      (within : Within (.chain (.many (.rule .node)) (.rule .closeTag)) text rest)
      (outside : Sticks depth rest stuck) : Sticks (depth + 1) text stuck

section Sticks
variable {depth : Nat} {text middle rest stuck : Text}

theorem Sticks.behind_node (onWay : Within (.rule .node) text middle)
    (node : Runs (.rule .node) text (some middle)) (sticks : Sticks depth middle stuck) :
    Sticks depth text stuck := by
  cases sticks with
  | document farthest => exact .document (farthest.behind_node onWay node)
  | unclosed fails farthest =>
    exact .unclosed (runs_behind_node node fails) (farthest.behind_node onWay node)
  | closed runs within outside =>
    exact .closed (runs_behind_node node runs)
      ((onWay.weaken runs.isSuffix).behind_node node within) outside

/-- A node that fails at a bracket is tried last, unless an end tag begins there. -/
theorem sticks_stuck (depth : Nat) (fails : Runs (.rule .node) ('<' :: text) none)
    (noSlash : ∀ others, text ≠ '/' :: others) (farthest : Farthest (.rule .node) ('<' :: text) stuck) :
    Sticks depth ('<' :: text) stuck := by
  obtain ⟨missed, within⟩ := farthest
  have slash : Runs (exactly '/') text none := fails_exactly noSlash
  cases depth with
  | zero =>
    exact .document ⟨.first (.once missed), within.last_node fails (within_finish missed.isSuffix)⟩
  | succ depth =>
    have noEnd : Runs (.rule .closeTag) ('<' :: text) none :=
      .rule (.chain (runs_exactly '<' text) (.broken slash))
    refine .unclosed (.chain (.stop fails) noEnd)
      ⟨.first (.once missed), within.last_node fails ?_⟩
    exact .rule ((Quiet.one _).within.chain (runs_exactly '<' text)
      ((Quiet.one _).within.broken slash)) missed.isSuffix

end Sticks

/-- The reader is stuck where parsing is. -/
theorem sticks_readForest (frames : List Frame) (done : List Written) (text : Text) :
    ∀ stuck, readForest frames done text = .error stuck → Sticks frames.length text stuck := by
  fun_induction readForest frames done text with
  | case1 frames done isEmpty =>
    intro stuck failed
    cases failed
  | case2 frames done unfinished =>
    intro stuck failed
    obtain rfl := Except.error.inj failed
    cases frames with
    | nil => exact absurd rfl unfinished
    | cons frame outer =>
      have nodes := Runs.stop fails_node_over
      have noEnd : Runs (.rule .closeTag) [] none := .rule (.broken .atEnd)
      refine .unclosed (.chain nodes noEnd) ⟨.second nodes (.own rfl noEnd), ?_⟩
      intro place misses
      exact List.nil_suffix
  | case3 done rest =>
    intro stuck failed
    obtain rfl := Except.error.inj failed
    obtain ⟨missed, within⟩ := farthest_node_end rest
    exact .document ⟨.first (.once missed),
      within.last_node (fails_node_end rest) (within_finish missed.isSuffix)⟩
  | case4 done rest frame outer stuckAt unread =>
    intro stuck failed
    obtain rfl := Except.error.inj failed
    have closes := runs_closeTag rest
    rw [unread] at closes
    exact .unclosed (.chain (.stop (fails_node_end rest)) closes) (farthest_endTag unread)
  | case5 done rest frame outer closing after read ih =>
    intro stuck failed
    have closes := runs_closeTag rest
    rw [read] at closes
    rw [List.unattach_reverse, List.unattach_attach] at ih
    exact .closed (.chain (.stop (fails_node_end rest)) closes) (within_endTag read) (ih stuck failed)
  | case6 frames done rest noSlash stuckAt unread =>
    intro stuck failed
    obtain rfl := Except.error.inj failed
    exact sticks_stuck _ (runs_element_node (element_fails unread)) noSlash
      (farthest_startTag unread).node
  | case7 frames done rest noSlash start after read closes ih =>
    intro stuck failed
    have element : Runs (.rule .element) ('<' :: rest) (some after) := by
      refine element_starts read ?_ (fun _ => rfl)
      intro opens
      rw [closes] at opens
      cases opens
    exact (ih stuck failed).behind_node
      (within_node (within_closed_start read closes) element.isSuffix) (runs_element_node element)
  | case8 frames done rest noSlash start after read opens ih =>
    intro stuck failed
    have opened := Bool.eq_false_iff.mpr opens
    have element {outcome : Option Text}
        (inside : Runs (.chain (.many (.rule .node)) (.rule .closeTag)) after outcome) :
        Runs (.rule .element) ('<' :: rest) outcome :=
      element_starts read (fun _ => inside) (fun closes => absurd closes opens)
    have sticks := ih stuck failed
    cases sticks with
    | unclosed fails farthest =>
      obtain ⟨missed, within⟩ := farthest
      have farthestElement : Farthest (.rule .element) ('<' :: rest) stuck :=
        ⟨misses_opened read opened missed, within_opened read opened missed.isSuffix within⟩
      exact sticks_stuck _ (runs_element_node (element fails)) noSlash farthestElement.node
    | closed runs within outside =>
      have whole := element runs
      exact outside.behind_node
        (within_node (within_opened read opened runs.isSuffix within) whole.isSuffix)
        (runs_element_node whole)
  | case9 frames done first rest noEnd apart ih =>
    intro stuck failed
    have node := runs_text_node rest apart
    exact (ih stuck failed).behind_node (within_text_node apart node.isSuffix) node

theorem farthest_readForest {source stuck : Text}
    (failed : readForest [] [] source = .error stuck) : Farthest (.rule .document) source stuck := by
  have sticks := sticks_readForest [] [] source stuck failed
  cases sticks with
  | document farthest =>
    obtain ⟨missed, within⟩ := farthest
    exact ⟨.rule missed, within.rule missed.isSuffix⟩

/-! ## Positions -/

/-- The position moves on with each character. -/
theorem Position.after_append_ne (front : Text) {more : Text} (filled : more ≠ []) :
    Position.after (front ++ more) ≠ Position.after front := by
  intro same
  obtain ⟨lines, columns⟩ := Position.mk.inj same
  rw [List.count_append] at lines
  have oneLine : '\n' ∉ more := List.count_eq_zero.mp (by omega)
  have inside : ∀ character ∈ more.reverse, decide (character ≠ '\n') = true := by
    intro character member
    refine decide_eq_true ?_
    rintro rfl
    exact oneLine (List.mem_reverse.mp member)
  rw [List.reverse_append, List.takeWhile_append_of_pos inside, List.length_append,
    List.length_reverse] at columns
  have nonempty := List.length_pos_of_ne_nil filled
  omega

/-- No two places in a source have the same position. -/
theorem Position.after_unique {source front stuck other rest : Text} (first : source = front ++ stuck)
    (second : source = other ++ rest) (same : Position.after other = Position.after front) :
    other = front := by
  rcases List.append_eq_append_iff.mp (first.symm.trans second) with
    ⟨between, rfl, -⟩ | ⟨between, rfl, -⟩
  · by_cases filled : between = []
    · rw [filled, List.append_nil]
    · exact absurd same (Position.after_append_ne front filled)
  · by_cases filled : between = []
    · rw [filled, List.append_nil]
    · exact absurd same.symm (Position.after_append_ne other filled)

theorem parse_of_stuck {front stuck : Text}
    (failed : readForest [] [] (front ++ stuck) = .error stuck) :
    Markup.parse (front ++ stuck) = .error (.malformed (Position.after front)) := by
  have before : (front ++ stuck).take ((front ++ stuck).length - stuck.length) = front := by
    rw [List.length_append, Nat.add_sub_cancel, List.take_left]
  rw [Markup.parse, read, failed]
  dsimp only
  rw [before]

/-- A source that cannot be derived is refused at the farthest miss, at the position of one place in
the source. Up to there the source is the beginning of a text that can be derived. -/
theorem malformed_at_farthest_miss {source : Text} (underived : ¬Derives (.rule .document) source) :
    ∃ front stuck, source = front ++ stuck ∧
      Markup.parse source = .error (.malformed (Position.after front)) ∧
      Farthest (.rule .document) source stuck ∧
      (∃ completion, Derives (.rule .document) (front ++ completion)) ∧
      ∀ other rest, source = other ++ rest → Position.after other = Position.after front →
        other = front := by
  rw [← toBool_readForest_iff] at underived
  cases reads : readForest [] [] source with
  | ok trees =>
    rw [reads] at underived
    exact absurd rfl underived
  | error stuck =>
    have farthest := farthest_readForest reads
    obtain ⟨front, completion, rfl, derives⟩ := farthest.missed.exists_completion trivial
    exact ⟨front, stuck, rfl, parse_of_stuck reads, farthest, ⟨completion, derives⟩,
      fun other rest second same => Position.after_unique rfl second same⟩

/-- The quote is not closed, so that the item ends before its equals sign. -/
def openQuoteSource : Text :=
  "<p>\n<a b=\x27/></p>".toList

theorem open_quote_reported_at_equals_sign :
    ¬Derives (.rule .document) openQuoteSource ∧
      Markup.parse openQuoteSource = .error (.malformed ⟨2, 5⟩) ∧
      ∃ front stuck, openQuoteSource = front ++ stuck ∧
        Markup.parse openQuoteSource = .error (.malformed (Position.after front)) ∧
        Farthest (.rule .document) openQuoteSource stuck ∧
        (∃ completion, Derives (.rule .document) (front ++ completion)) ∧
        ∀ other rest, openQuoteSource = other ++ rest →
          Position.after other = Position.after front → other = front := by
  have underived : ¬Derives (.rule .document) openQuoteSource := by
    rw [← toBool_readForest_iff]
    decide +kernel
  have computed : failure? (Markup.parse openQuoteSource) = some (.malformed ⟨2, 5⟩) := by
    decide +kernel
  exact ⟨underived, (failure?_eq_some_iff _ _).mp computed, malformed_at_farthest_miss underived⟩

end TreeTemplate.Markup
