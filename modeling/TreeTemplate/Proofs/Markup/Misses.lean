import Mathlib.Data.List.Basic
import TreeTemplate.Proofs.Markup.Grammar

/-!
# Misses

While markup is parsed, rules are tried at places where they fail, also on ways that are given up
later on. Up to such a place the source is the beginning of a text that can be derived: what was
consumed before it was derived, every part of a rule that is still to come can be derived from some
text, and so can the rule that was tried.
-/
set_option autoImplicit false

namespace TreeTemplate.Markup

open Pattern

def Rule.isReported : Rule → Bool
  | .element | .selfClose | .closeTag | .tagName => true
  | .attribute | .attributePrefix | .attributeName | .text => true
  | .document | .node | .attributeValue | .doubleQuoted | .singleQuoted | .space => false

/-- Parsing the source tries a reported rule, or the end of the source, at a place and fails there.
Places are given as what is left of the source. -/
inductive Misses : Pattern → Text → Text → Prop where
  | finish {character : Char} {rest : Text} :
      Misses .finish (character :: rest) (character :: rest)
  | own {name : Rule} {source : Text} (reported : name.isReported = true)
      (fails : Runs (.rule name) source none) : Misses (.rule name) source source
  | rule {name : Rule} {source place : Text} (inside : Misses name.pattern source place) :
      Misses (.rule name) source place
  | first {first second : Pattern} {source place : Text} (inside : Misses first source place) :
      Misses (.chain first second) source place
  | second {first second : Pattern} {source middle place : Text}
      (before : Runs first source (some middle)) (behind : Misses second middle place) :
      Misses (.chain first second) source place
  | left {first second : Pattern} {source place : Text} (inside : Misses first source place) :
      Misses (.either first second) source place
  | right {first second : Pattern} {source place : Text} (fails : Runs first source none)
      (inside : Misses second source place) : Misses (.either first second) source place
  | once {repeated : Pattern} {source place : Text} (inside : Misses repeated source place) :
      Misses (.many repeated) source place
  | again {repeated : Pattern} {source middle place : Text}
      (before : Runs repeated source (some middle)) (behind : Misses (.many repeated) middle place) :
      Misses (.many repeated) source place

theorem Runs.isSuffix {pattern : Pattern} {source rest : Text}
    (runs : Runs pattern source (some rest)) : rest <:+ source := by
  obtain ⟨part, same, -⟩ := runs.derives
  exact ⟨part, same.symm⟩

theorem Misses.isSuffix {pattern : Pattern} {source place : Text}
    (misses : Misses pattern source place) : place <:+ source := by
  induction misses with
  | finish => exact List.suffix_refl _
  | own reported fails => exact List.suffix_refl _
  | rule inside ih => exact ih
  | first inside ih => exact ih
  | second before behind ih => exact ih.trans before.isSuffix
  | left inside ih => exact ih
  | right fails inside ih => exact ih
  | once inside ih => exact ih
  | again before behind ih => exact ih.trans before.isSuffix

def Pattern.IsInhabited : Pattern → Prop
  | nothing | finish | rule _ => True
  | one inClass => ∃ character, inClass character = true
  | chain first second => first.IsInhabited ∧ second.IsInhabited
  | either first second => first.IsInhabited ∧ second.IsInhabited
  | many repeated => repeated.IsInhabited

theorem isInhabited_exactly (character : Char) : (Pattern.exactly character).IsInhabited :=
  ⟨character, decide_eq_true rfl⟩

theorem Rule.isInhabited (name : Rule) : name.pattern.IsInhabited := by
  have exactText := isInhabited_exactly
  have letter {starts : Char → Bool} (isIn : starts 'a' = true) : (Pattern.one starts).IsInhabited :=
    ⟨'a', isIn⟩
  match name with
  | .document => exact ⟨trivial, trivial⟩
  | .node => exact ⟨trivial, trivial⟩
  | .element =>
    exact ⟨exactText _, trivial, ⟨⟨trivial, trivial⟩, trivial⟩, trivial, trivial, exactText _, trivial,
      trivial⟩
  | .selfClose => exact ⟨exactText _, exactText _⟩
  | .closeTag => exact ⟨exactText _, exactText _, trivial, trivial, exactText _⟩
  | .tagName => exact ⟨letter rfl, letter rfl⟩
  | .attribute =>
    exact ⟨⟨trivial, trivial⟩, trivial, ⟨trivial, exactText _, trivial, trivial⟩, trivial⟩
  | .attributePrefix => exact ⟨⟨exactText _, exactText _⟩, exactText _, exactText _, exactText _⟩
  | .attributeName => exact ⟨letter rfl, letter rfl⟩
  | .attributeValue =>
    exact ⟨⟨exactText _, trivial, exactText _⟩, exactText _, trivial, exactText _⟩
  | .doubleQuoted => exact letter rfl
  | .singleQuoted => exact letter rfl
  | .text => exact ⟨letter rfl, letter rfl⟩
  | .space => exact ⟨' ', rfl⟩

theorem Derives.exactly (character : Char) : Derives (Pattern.exactly character) [character] :=
  .one (decide_eq_true rfl)

/-- The shortest texts of the rules will do. -/
theorem Rule.exists_derives (name : Rule) : ∃ part, Derives (.rule name) part := by
  have tagName : Derives (.rule .tagName) ['a'] := .rule (.chain (.one rfl) .stop)
  have attributeName : Derives (.rule .attributeName) ['a'] := .rule (.chain (.one rfl) .stop)
  have text : Derives (.rule .text) ['a'] := .rule (.chain (.one rfl) .stop)
  have selfClose : Derives (.rule .selfClose) ['/', '>'] := .rule (.chain (.one rfl) (.one rfl))
  have doubleQuoted : Derives (.rule .doubleQuoted) [] := .rule .stop
  match name with
  | .document => exact ⟨_, .rule (.chain .stop .finish)⟩
  | .node => exact ⟨_, .rule (.right text)⟩
  | .element =>
    exact ⟨_, .rule (.chain (Derives.exactly '<') (.chain tagName (.chain .stop
      (.chain .stop (.left selfClose)))))⟩
  | .selfClose => exact ⟨_, selfClose⟩
  | .closeTag =>
    exact ⟨_, .rule (.chain (Derives.exactly '<') (.chain (Derives.exactly '/')
      (.chain tagName (.chain .stop (Derives.exactly '>')))))⟩
  | .tagName => exact ⟨_, tagName⟩
  | .attribute => exact ⟨_, .rule (.chain (.right .nothing) (.chain attributeName (.right .nothing)))⟩
  | .attributePrefix => exact ⟨_, .rule (.right (.left (Derives.exactly ':')))⟩
  | .attributeName => exact ⟨_, attributeName⟩
  | .attributeValue =>
    exact ⟨_, .rule (.left (.chain (Derives.exactly '\x22') (.chain doubleQuoted
      (Derives.exactly '\x22'))))⟩
  | .doubleQuoted => exact ⟨_, doubleQuoted⟩
  | .singleQuoted => exact ⟨_, .rule .stop⟩
  | .text => exact ⟨_, text⟩
  | .space => exact ⟨[' '], .rule (.one rfl)⟩

theorem Pattern.IsInhabited.exists_derives {pattern : Pattern} (inhabited : pattern.IsInhabited) :
    ∃ part, Derives pattern part := by
  induction pattern with
  | nothing => exact ⟨[], .nothing⟩
  | finish => exact ⟨[], .finish⟩
  | one inClass =>
    obtain ⟨character, isIn⟩ := inhabited
    exact ⟨[character], .one isIn⟩
  | rule name => exact name.exists_derives
  | chain first second ihFirst ihSecond =>
    obtain ⟨front, before⟩ := ihFirst inhabited.1
    obtain ⟨back, behind⟩ := ihSecond inhabited.2
    exact ⟨front ++ back, .chain before behind⟩
  | either first second ihFirst ihSecond =>
    obtain ⟨part, inside⟩ := ihFirst inhabited.1
    exact ⟨part, .left inside⟩
  | many repeated ih => exact ⟨[], .stop⟩

/-! ## Completions -/

/-- What stands before a miss can be completed to a text of the pattern. -/
theorem Misses.exists_completion {pattern : Pattern} {source place : Text}
    (misses : Misses pattern source place) (inhabited : pattern.IsInhabited) :
    ∃ front completion, source = front ++ place ∧ Derives pattern (front ++ completion) := by
  induction misses with
  | finish => exact ⟨[], [], rfl, .finish⟩
  | @own name source reported fails =>
    obtain ⟨part, derives⟩ := name.exists_derives
    exact ⟨[], part, rfl, derives⟩
  | @rule name source place inside ih =>
    obtain ⟨front, completion, same, derives⟩ := ih name.isInhabited
    exact ⟨front, completion, same, .rule derives⟩
  | first inside ih =>
    obtain ⟨front, completion, same, derives⟩ := ih inhabited.1
    obtain ⟨back, behind⟩ := inhabited.2.exists_derives
    refine ⟨front, completion ++ back, same, ?_⟩
    rw [← List.append_assoc]
    exact .chain derives behind
  | second before behind ih =>
    obtain ⟨part, rfl, derivesBefore⟩ := before.derives
    obtain ⟨front, completion, rfl, derives⟩ := ih inhabited.2
    refine ⟨part ++ front, completion, (List.append_assoc ..).symm, ?_⟩
    rw [List.append_assoc]
    exact .chain derivesBefore derives
  | left inside ih =>
    obtain ⟨front, completion, same, derives⟩ := ih inhabited.1
    exact ⟨front, completion, same, .left derives⟩
  | right fails inside ih =>
    obtain ⟨front, completion, same, derives⟩ := ih inhabited.2
    exact ⟨front, completion, same, .right derives⟩
  | once inside ih =>
    obtain ⟨front, completion, same, derives⟩ := ih inhabited
    have whole := Derives.more derives .stop
    rw [List.append_nil] at whole
    exact ⟨front, completion, same, whole⟩
  | again before behind ih =>
    obtain ⟨part, rfl, derivesBefore⟩ := before.derives
    obtain ⟨front, completion, rfl, derives⟩ := ih inhabited
    refine ⟨part ++ front, completion, (List.append_assoc ..).symm, ?_⟩
    rw [List.append_assoc]
    exact .more derivesBefore derives

def Quiet (pattern : Pattern) : Prop :=
  ∀ source place, ¬Misses pattern source place

namespace Quiet
variable {first second repeated : Pattern} {name : Rule}

theorem one (inClass : Char → Bool) : Quiet (.one inClass) := by
  intro source place misses
  cases misses

theorem nothing : Quiet .nothing := by
  intro source place misses
  cases misses

theorem rule (unreported : name.isReported = false) (inside : Quiet name.pattern) :
    Quiet (.rule name) := by
  intro source place misses
  cases misses with
  | own reported fails =>
    rw [unreported] at reported
    cases reported
  | rule misses => exact inside source place misses

theorem chain (before : Quiet first) (behind : Quiet second) : Quiet (.chain first second) := by
  intro source place misses
  cases misses with
  | first inside => exact before _ _ inside
  | second runs inside => exact behind _ _ inside

theorem either (left : Quiet first) (right : Quiet second) : Quiet (.either first second) := by
  intro source place misses
  cases misses with
  | left inside => exact left _ _ inside
  | right fails inside => exact right _ _ inside

theorem many (inside : Quiet repeated) : Quiet (.many repeated) := by
  intro source place misses
  generalize shape : Pattern.many repeated = pattern at misses
  induction misses with
  | once misses =>
    obtain rfl := Pattern.many.inj shape
    exact inside _ _ misses
  | again before behind ih => exact ih shape
  | _ => cases shape

theorem spaces : Quiet spaces :=
  many (rule rfl (one isSpace))

theorem quoted {quote : Char} (unreported : name.isReported = false)
    (body : name.pattern = .many (except quote)) :
    Quiet (.chain (exactly quote) (.chain (.rule name) (exactly quote))) := by
  have inside : Quiet name.pattern := by
    rw [body]
    exact many (one _)
  exact chain (one _) (chain (rule unreported inside) (one _))

theorem assigned : Quiet assigned :=
  chain spaces (chain (one _) (chain spaces
    (rule rfl (either (quoted rfl rfl) (quoted rfl rfl)))))

end Quiet

def Within (pattern : Pattern) (source limit : Text) : Prop :=
  ∀ place, Misses pattern source place → limit <:+ place

section Within
variable {first second repeated : Pattern} {name : Rule} {source middle rest limit : Text}

theorem Quiet.within {pattern : Pattern} (quiet : Quiet pattern) : Within pattern source limit := by
  intro place misses
  exact absurd misses (quiet source place)

theorem Within.weaken {pattern : Pattern} {other : Text} (within : Within pattern source other)
    (order : limit <:+ other) : Within pattern source limit := by
  intro place misses
  exact order.trans (within place misses)

theorem Within.rule (inside : Within name.pattern source limit) (order : limit <:+ source) :
    Within (.rule name) source limit := by
  intro place misses
  cases misses with
  | own reported fails => exact order
  | rule misses => exact inside place misses

theorem within_finish (order : limit <:+ source) : Within .finish source limit := by
  intro place misses
  cases misses
  exact order

/-- A rule without misses of its own misses where it is tried, if it fails. -/
theorem within_leaf (quiet : Quiet name.pattern) : Within (.rule name) source source :=
  quiet.within.rule (List.suffix_refl source)

theorem Runs.within_leaf (runs : Runs (.rule name) source (some rest)) (quiet : Quiet name.pattern) :
    Within (.rule name) source limit := by
  intro place misses
  cases misses with
  | own reported fails => cases runs.functional fails
  | rule inside => exact absurd inside (quiet source place)

theorem Within.chain (before : Within first source limit) (runs : Runs first source (some middle))
    (behind : Within second middle limit) : Within (.chain first second) source limit := by
  intro place misses
  cases misses with
  | first inside => exact before place inside
  | second others inside =>
    obtain rfl := Option.some.inj (runs.functional others)
    exact behind place inside

theorem Within.broken (before : Within first source limit) (fails : Runs first source none) :
    Within (.chain first second) source limit := by
  intro place misses
  cases misses with
  | first inside => exact before place inside
  | second others inside => cases fails.functional others

theorem Within.chain_quiet (before : Within first source limit) (quiet : Quiet second) :
    Within (.chain first second) source limit := by
  intro place misses
  cases misses with
  | first inside => exact before place inside
  | second others inside => exact absurd inside (quiet _ place)

theorem Within.either (left : Within first source limit) (right : Within second source limit) :
    Within (.either first second) source limit := by
  intro place misses
  cases misses with
  | left inside => exact left place inside
  | right fails inside => exact right place inside

theorem Within.left (left : Within first source limit) (runs : Runs first source (some rest)) :
    Within (.either first second) source limit := by
  intro place misses
  cases misses with
  | left inside => exact left place inside
  | right fails inside => cases runs.functional fails

theorem Within.stop (inside : Within repeated source limit) (fails : Runs repeated source none) :
    Within (.many repeated) source limit := by
  intro place misses
  cases misses with
  | once misses => exact inside place misses
  | again before behind => cases fails.functional before

theorem Within.more (inside : Within repeated source limit)
    (runs : Runs repeated source (some middle)) (behind : Within (.many repeated) middle limit) :
    Within (.many repeated) source limit := by
  intro place misses
  cases misses with
  | once misses => exact inside place misses
  | again before later =>
    obtain rfl := Option.some.inj (runs.functional before)
    exact behind place later

end Within

end TreeTemplate.Markup
