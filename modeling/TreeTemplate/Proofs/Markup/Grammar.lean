import TreeTemplate.Markup.Reader

/-!
# The grammar of markup

The rules of markup as data, with two readings. `Derives` reads them as a context-free grammar: a
choice may take either side, and a repetition may stop anywhere. `Runs` reads them as a parsing
expression grammar: a choice takes its second side only if the first one fails, a repetition goes on
as long as it can, and what has been consumed is never given back.
-/
set_option autoImplicit false

namespace TreeTemplate.Markup

inductive Rule where
  | document
  | node
  | element
  | selfClose
  | closeTag
  | tagName
  | attribute
  | attributePrefix
  | attributeName
  | attributeValue
  | doubleQuoted
  | singleQuoted
  | text
  | space
  deriving DecidableEq

inductive Pattern where
  | nothing
  | finish
  | one (inClass : Char → Bool)
  | rule (name : Rule)
  | chain (first second : Pattern)
  | either (first second : Pattern)
  | many (repeated : Pattern)

namespace Pattern

def exactly (character : Char) : Pattern :=
  one fun other => other = character

def except (character : Char) : Pattern :=
  one fun other => other ≠ character

def optional (pattern : Pattern) : Pattern :=
  either pattern nothing

def oneOrMore (pattern : Pattern) : Pattern :=
  chain pattern (many pattern)

def spaces : Pattern :=
  many (rule .space)

def attributes : Pattern :=
  many (chain (oneOrMore (rule .space)) (rule .attribute))

def assigned : Pattern :=
  chain spaces (chain (exactly '=') (chain spaces (rule .attributeValue)))

def elementEnd : Pattern :=
  either (rule .selfClose) (chain (exactly '>') (chain (many (rule .node)) (rule .closeTag)))

end Pattern

open Pattern

def Rule.pattern : Rule → Pattern
  | .document => chain (many (rule .node)) finish
  | .node => either (rule .element) (rule .text)
  | .element =>
    chain (exactly '<') (chain (rule .tagName) (chain attributes (chain spaces elementEnd)))
  | .selfClose => chain (exactly '/') (exactly '>')
  | .closeTag =>
    chain (exactly '<') (chain (exactly '/') (chain (rule .tagName) (chain spaces (exactly '>'))))
  | .tagName => chain (one startsTagName) (many (one continuesTagName))
  | .attribute =>
    chain (optional (rule .attributePrefix)) (chain (rule .attributeName) (optional assigned))
  | .attributePrefix =>
    either (chain (exactly ':') (exactly '.'))
      (either (exactly ':') (either (exactly '@') (exactly '.')))
  | .attributeName => chain (one startsItemName) (many (one continuesItemName))
  | .attributeValue =>
    either (chain (exactly '\x22') (chain (rule .doubleQuoted) (exactly '\x22')))
      (chain (exactly '\x27') (chain (rule .singleQuoted) (exactly '\x27')))
  | .doubleQuoted => many (except '\x22')
  | .singleQuoted => many (except '\x27')
  | .text => oneOrMore (except '<')
  | .space => one isSpace

/-- The texts of a pattern, read as a context-free grammar. -/
inductive Derives : Pattern → Text → Prop where
  | nothing : Derives .nothing []
  | finish : Derives .finish []
  | one {inClass : Char → Bool} {character : Char} (isIn : inClass character = true) :
      Derives (.one inClass) [character]
  | rule {name : Rule} {part : Text} (inside : Derives name.pattern part) :
      Derives (.rule name) part
  | chain {first second : Pattern} {front back : Text} (before : Derives first front)
      (behind : Derives second back) : Derives (.chain first second) (front ++ back)
  | left {first second : Pattern} {part : Text} (inside : Derives first part) :
      Derives (.either first second) part
  | right {first second : Pattern} {part : Text} (inside : Derives second part) :
      Derives (.either first second) part
  | stop {repeated : Pattern} : Derives (.many repeated) []
  | more {repeated : Pattern} {front back : Text} (before : Derives repeated front)
      (behind : Derives (.many repeated) back) : Derives (.many repeated) (front ++ back)

/-- What parsing a pattern comes to: what is left of the source, or nothing if it fails. -/
inductive Runs : Pattern → Text → Option Text → Prop where
  | nothing {source : Text} : Runs .nothing source (some source)
  | finish : Runs .finish [] (some [])
  | unfinished {character : Char} {rest : Text} : Runs .finish (character :: rest) none
  | one {inClass : Char → Bool} {character : Char} {rest : Text}
      (isIn : inClass character = true) : Runs (.one inClass) (character :: rest) (some rest)
  | other {inClass : Char → Bool} {character : Char} {rest : Text}
      (isOut : inClass character = false) : Runs (.one inClass) (character :: rest) none
  | atEnd {inClass : Char → Bool} : Runs (.one inClass) [] none
  | rule {name : Rule} {source : Text} {outcome : Option Text}
      (inside : Runs name.pattern source outcome) : Runs (.rule name) source outcome
  | chain {first second : Pattern} {source middle : Text} {outcome : Option Text}
      (before : Runs first source (some middle)) (behind : Runs second middle outcome) :
      Runs (.chain first second) source outcome
  | broken {first second : Pattern} {source : Text} (fails : Runs first source none) :
      Runs (.chain first second) source none
  | left {first second : Pattern} {source rest : Text} (inside : Runs first source (some rest)) :
      Runs (.either first second) source (some rest)
  | right {first second : Pattern} {source : Text} {outcome : Option Text}
      (fails : Runs first source none) (inside : Runs second source outcome) :
      Runs (.either first second) source outcome
  | stop {repeated : Pattern} {source : Text} (fails : Runs repeated source none) :
      Runs (.many repeated) source (some source)
  | more {repeated : Pattern} {source middle : Text} {outcome : Option Text}
      (before : Runs repeated source (some middle)) (behind : Runs (.many repeated) middle outcome) :
      Runs (.many repeated) source outcome

theorem Runs.functional {pattern : Pattern} {source : Text} {first second : Option Text}
    (left : Runs pattern source first) (right : Runs pattern source second) : first = second := by
  induction left generalizing second with
  | nothing => cases right; rfl
  | finish => cases right; rfl
  | unfinished => cases right; rfl
  | one isIn =>
    cases right with
    | one => rfl
    | other isOut => rw [isIn] at isOut; cases isOut
  | other isOut =>
    cases right with
    | one isIn => rw [isIn] at isOut; cases isOut
    | other => rfl
  | atEnd => cases right; rfl
  | rule _ ih =>
    cases right with
    | rule inside => exact ih inside
  | chain _ _ ihBefore ihBehind =>
    cases right with
    | chain before behind =>
      obtain rfl := Option.some.inj (ihBefore before)
      exact ihBehind behind
    | broken fails => cases ihBefore fails
  | broken _ ih =>
    cases right with
    | chain before behind => cases ih before
    | broken fails => rfl
  | left _ ih =>
    cases right with
    | left inside => exact ih inside
    | right fails inside => cases ih fails
  | right _ _ ihFails ihInside =>
    cases right with
    | left inside => cases ihFails inside
    | right fails inside => exact ihInside inside
  | stop _ ih =>
    cases right with
    | stop fails => rfl
    | more before behind => cases ih before
  | more _ _ ihBefore ihBehind =>
    cases right with
    | stop fails => cases ihBefore fails
    | more before behind =>
      obtain rfl := Option.some.inj (ihBefore before)
      exact ihBehind behind

theorem Runs.derives {pattern : Pattern} {source rest : Text}
    (runs : Runs pattern source (some rest)) :
    ∃ part, source = part ++ rest ∧ Derives pattern part := by
  generalize result : some rest = outcome at runs
  induction runs generalizing rest with
  | nothing => cases result; exact ⟨[], rfl, .nothing⟩
  | finish => cases result; exact ⟨[], rfl, .finish⟩
  | unfinished => cases result
  | one isIn => cases result; exact ⟨_, rfl, .one isIn⟩
  | other isOut => cases result
  | atEnd => cases result
  | rule _ ih =>
    obtain ⟨part, same, derives⟩ := ih result
    exact ⟨part, same, .rule derives⟩
  | chain _ _ ihBefore ihBehind =>
    obtain ⟨front, rfl, before⟩ := ihBefore rfl
    obtain ⟨back, rfl, behind⟩ := ihBehind result
    exact ⟨front ++ back, (List.append_assoc ..).symm, .chain before behind⟩
  | broken _ _ => cases result
  | left _ ih =>
    obtain ⟨part, same, derives⟩ := ih result
    exact ⟨part, same, .left derives⟩
  | right _ _ _ ih =>
    obtain ⟨part, same, derives⟩ := ih result
    exact ⟨part, same, .right derives⟩
  | stop _ _ => cases result; exact ⟨[], rfl, .stop⟩
  | more _ _ ihBefore ihBehind =>
    obtain ⟨front, rfl, before⟩ := ihBefore rfl
    obtain ⟨back, rfl, behind⟩ := ihBehind result
    exact ⟨front ++ back, (List.append_assoc ..).symm, .more before behind⟩

end TreeTemplate.Markup
