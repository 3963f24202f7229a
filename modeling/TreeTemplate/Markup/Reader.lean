import TreeTemplate.Markup.Written

/-!
# Reading markup

Markup is a sequence of texts and elements. A text is a longest run without `<`. An element is a
tag that closes itself, or a start tag, markup, and an end tag; whether the two tags have the same
name is not a matter of form. The reader goes through the source once, with the elements that are
still open on a stack.

Where the source is not markup, the reader says where it got stuck: at the last place at which some
part of the markup could have begun and did not. Places are given as what is left of the source.
-/
set_option autoImplicit false

namespace TreeTemplate.Markup

/-! ## Characters -/

def isSpace (character : Char) : Bool :=
  character = ' ' || character = '\t' || character = '\r' || character = '\n'

def startsTagName (character : Char) : Bool :=
  character.isAlpha

def continuesTagName (character : Char) : Bool :=
  character.isAlphanum || character = '-' || character = '_'

/-- Whether the name of an item can start with the character. -/
def startsItemName (character : Char) : Bool :=
  character.isAlpha || character = '_'

/-- Whether the name of an item can go on with the character. -/
def continuesItemName (character : Char) : Bool :=
  character.isAlphanum || character = '-' || character = '_' || character = ':'

/-! ## Parts of a tag -/

/-- The longest name at the start of a text, and what follows it. -/
def readName? (starts continues : Char → Bool) : Text → Option (Text × Text)
  | [] => none
  | first :: rest =>
    if starts first then some (first :: rest.takeWhile continues, rest.dropWhile continues)
    else none

/-- The sigil at the start of a text, and what follows it. -/
def readSigil : Text → Sigil × Text
  | ':' :: '.' :: rest => (.bindProperty, rest)
  | ':' :: rest => (.bindAttribute, rest)
  | '@' :: rest => (.listen, rest)
  | '.' :: rest => (.setProperty, rest)
  | rest => (.bare, rest)

/-- The text up to the next quote of the given kind, and what follows the quote. -/
def readQuoted? (quote : Char) (text : Text) : Option (Text × Text) :=
  match text.dropWhile (· ≠ quote) with
  | [] => none
  | _ :: rest => some (text.takeWhile (· ≠ quote), rest)

/-- The value of an item after its name, if an equals sign and a closed quoted text follow. -/
def readValue? (text : Text) : Option (Text × Text) :=
  match text.dropWhile isSpace with
  | '=' :: afterEquals =>
    match afterEquals.dropWhile isSpace with
    | '\x22' :: quoted => readQuoted? '\x22' quoted
    | '\x27' :: quoted => readQuoted? '\x27' quoted
    | _ => none
  | _ => none

/-- The item at the start of a text, and what follows it. -/
def readItem? (text : Text) : Option (Item × Text) :=
  let (sigil, afterSigil) := readSigil text
  match readName? startsItemName continuesItemName afterSigil with
  | none => none
  | some (name, afterName) =>
    match readValue? afterName with
    | some (value, rest) => some (⟨sigil, name, some value⟩, rest)
    | none => some (⟨sigil, name, none⟩, afterName)

/-! ### Reading consumes -/

theorem length_dropWhile_le (inClass : Char → Bool) (text : Text) :
    (text.dropWhile inClass).length ≤ text.length :=
  (List.dropWhile_sublist inClass).length_le

theorem readName?_shorter {starts continues : Char → Bool} {text name rest : Text}
    (read : readName? starts continues text = some (name, rest)) : rest.length < text.length := by
  cases text with
  | nil => simp [readName?] at read
  | cons first others =>
    simp only [readName?] at read
    split at read
    · simp only [Option.some.injEq, Prod.mk.injEq] at read
      have bound := length_dropWhile_le continues others
      rw [← read.2]
      simp only [List.length_cons]
      omega
    · simp at read

theorem readSigil_le (text : Text) : (readSigil text).2.length ≤ text.length := by
  unfold readSigil
  split <;> simp only [List.length_cons] <;> omega

theorem readQuoted?_le {quote : Char} {text value rest : Text}
    (read : readQuoted? quote text = some (value, rest)) : rest.length ≤ text.length := by
  unfold readQuoted? at read
  split at read
  · simp at read
  · rename_i found
    simp only [Option.some.injEq, Prod.mk.injEq] at read
    have bound := length_dropWhile_le (· ≠ quote) text
    rw [found] at bound
    rw [← read.2]
    simp only [List.length_cons] at bound
    omega

theorem readValue?_le {text value rest : Text}
    (read : readValue? text = some (value, rest)) : rest.length ≤ text.length := by
  unfold readValue? at read
  split at read
  · rename_i afterEquals equals
    have outer := length_dropWhile_le isSpace text
    rw [equals] at outer
    have inner := length_dropWhile_le isSpace afterEquals
    simp only [List.length_cons] at outer
    split at read
    · rename_i quoted found
      rw [found] at inner
      simp only [List.length_cons] at inner
      have last := readQuoted?_le read
      omega
    · rename_i quoted found
      rw [found] at inner
      simp only [List.length_cons] at inner
      have last := readQuoted?_le read
      omega
    · simp at read
  · simp at read

theorem readItem?_shorter {text rest : Text} {item : Item}
    (read : readItem? text = some (item, rest)) : rest.length < text.length := by
  unfold readItem? at read
  have bound := readSigil_le text
  simp only at read
  split at read
  · simp at read
  · rename_i name afterName named
    have shorter := readName?_shorter named
    split at read
    · rename_i value after valued
      have last := readValue?_le valued
      simp only [Option.some.injEq, Prod.mk.injEq] at read
      rw [← read.2]
      omega
    · simp only [Option.some.injEq, Prod.mk.injEq] at read
      rw [← read.2]
      omega

/-! ## Tags -/

/-- The items at the start of a text, each after at least one space, and what follows the last. -/
def readItems (text : Text) : List Item × Text :=
  match text with
  | [] => ([], [])
  | first :: others =>
    if isSpace first then
      match _ : readItem? (others.dropWhile isSpace) with
      | none => ([], first :: others)
      | some (item, rest) =>
        let (items, after) := readItems rest
        (item :: items, after)
    else ([], first :: others)
termination_by text.length
decreasing_by
  have shorter := readItem?_shorter (by assumption)
  have bound := length_dropWhile_le isSpace others
  simp only [List.length_cons]
  omega

/-- The end of a start tag: whether it closes itself, and what follows it. Where spaces lead to
something that is no end, an item was tried there, which gets stuck after its sigil. -/
def readTagEnd (text : Text) : Except Text (Bool × Text) :=
  match text.dropWhile isSpace with
  | '/' :: '>' :: rest => .ok (true, rest)
  | '>' :: rest => .ok (false, rest)
  | ended => .error (if ended.length < text.length then (readSigil ended).2 else ended)

/-- A start tag without its bracket. -/
structure StartTag where
  tag : Text
  items : List Item
  closesItself : Bool

/-- The start tag whose bracket stands before the text, and what follows it. -/
def readStartTag (text : Text) : Except Text (StartTag × Text) :=
  match readName? startsTagName continuesTagName text with
  | none => .error text
  | some (tag, afterTag) =>
    let (items, afterItems) := readItems afterTag
    match readTagEnd afterItems with
    | .error stuck => .error stuck
    | .ok (closesItself, rest) => .ok (⟨tag, items, closesItself⟩, rest)

/-- The name of the end tag whose `</` stands before the text, and what follows it. An end tag that
is not closed after its name is stuck at its slash, where no name of a start tag begins. -/
def readEndTag (text : Text) : Except Text (Text × Text) :=
  match readName? startsTagName continuesTagName text with
  | none => .error text
  | some (tag, afterTag) =>
    match afterTag.dropWhile isSpace with
    | '>' :: rest => .ok (tag, rest)
    | _ => .error ('/' :: text)

theorem readItems_le (text : Text) : (readItems text).2.length ≤ text.length := by
  fun_induction readItems text with
  | case1 => simp
  | case2 => simp
  | case3 first others space item rest read items after equation ih =>
    have shorter := readItem?_shorter read
    have bound := length_dropWhile_le isSpace others
    rw [equation] at ih
    simp only [List.length_cons] at ih ⊢
    omega
  | case4 => simp

theorem readTagEnd_le {text rest : Text} {closesItself : Bool}
    (read : readTagEnd text = .ok (closesItself, rest)) : rest.length ≤ text.length := by
  unfold readTagEnd at read
  have bound := length_dropWhile_le isSpace text
  split at read
  · rename_i found
    rw [found] at bound
    simp only [Except.ok.injEq, Prod.mk.injEq] at read
    rw [← read.2]
    simp only [List.length_cons] at bound
    omega
  · rename_i found
    rw [found] at bound
    simp only [Except.ok.injEq, Prod.mk.injEq] at read
    rw [← read.2]
    simp only [List.length_cons] at bound
    omega
  · simp at read

theorem readStartTag_le {text rest : Text} {start : StartTag}
    (read : readStartTag text = .ok (start, rest)) : rest.length ≤ text.length := by
  unfold readStartTag at read
  split at read
  · simp at read
  · rename_i tag afterTag named
    have shorter := readName?_shorter named
    have items := readItems_le afterTag
    simp only at read
    split at read
    · simp at read
    · rename_i closesItself after ended
      have last := readTagEnd_le ended
      simp only [Except.ok.injEq, Prod.mk.injEq] at read
      rw [← read.2]
      omega

theorem readEndTag_le {text tag rest : Text}
    (read : readEndTag text = .ok (tag, rest)) : rest.length ≤ text.length := by
  unfold readEndTag at read
  split at read
  · simp at read
  · rename_i name afterTag named
    have shorter := readName?_shorter named
    have bound := length_dropWhile_le isSpace afterTag
    split at read
    · rename_i after found
      rw [found] at bound
      simp only [Except.ok.injEq, Prod.mk.injEq] at read
      rw [← read.2]
      simp only [List.length_cons] at bound
      omega
    · simp at read

/-! ## Trees -/

/-- An element whose end tag has not been read: its start tag, and what stands before it in its
parent, the latest first. -/
structure Frame where
  tag : Text
  items : List Item
  before : List Written

/-- Reads markup to the end of the source, inside the open elements of `frames`, the innermost
first, after the pieces of `done`, the latest first. -/
def readForest (frames : List Frame) (done : List Written) (text : Text) :
    Except Text (List Written) :=
  match text with
  | [] => if frames.isEmpty then .ok done.reverse else .error []
  | '<' :: '/' :: rest =>
    match frames with
    | [] => .error ('/' :: rest)
    | frame :: outer =>
      match _ : readEndTag rest with
      | .error stuck => .error stuck
      | .ok (closing, after) =>
        readForest outer (.paired frame.tag frame.items done.reverse closing :: frame.before) after
  | '<' :: rest =>
    match _ : readStartTag rest with
    | .error stuck => .error stuck
    | .ok (start, after) =>
      if start.closesItself then readForest frames (.void start.tag start.items :: done) after
      else readForest (⟨start.tag, start.items, done⟩ :: frames) [] after
  | first :: rest =>
    readForest frames (.text (first :: rest.takeWhile (· ≠ '<')) :: done)
      (rest.dropWhile (· ≠ '<'))
termination_by text.length
decreasing_by
  · have bound := readEndTag_le (by assumption)
    simp only [List.length_cons]
    omega
  · have bound := readStartTag_le (by assumption)
    simp only [List.length_cons]
    omega
  · have bound := readStartTag_le (by assumption)
    simp only [List.length_cons]
    omega
  · have bound := length_dropWhile_le (· ≠ '<') rest
    simp only [List.length_cons]
    omega

/-! ## Positions -/

/-- A place in a source: its line and its column, both from one. -/
structure Position where
  line : Nat
  column : Nat
  deriving DecidableEq

/-- The position after a text: one line for each line feed, and a column for each character since. -/
def Position.after (text : Text) : Position :=
  ⟨text.count '\n' + 1, (text.reverse.takeWhile (· ≠ '\n')).length + 1⟩

/-- The trees of a source, or the position where reading got stuck. -/
def read (source : Text) : Except Position (List Written) :=
  match readForest [] [] source with
  | .ok trees => .ok trees
  | .error stuck => .error (Position.after (source.take (source.length - stuck.length)))

end TreeTemplate.Markup
