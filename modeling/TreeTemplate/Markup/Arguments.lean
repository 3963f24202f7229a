import TreeTemplate.Text.Blank

/-!
# Argument lists

The value of a listener item is a list of expressions. It is cut at the commas that stand neither
between quotes nor in brackets. Brackets are only counted: their kinds are not compared, and a
closing bracket without an opening one counts for nothing. A quote ends at the next quote of its
kind.
-/
set_option autoImplicit false

namespace TreeTemplate.Markup

/-- What a place in an argument list stands in: a number of brackets, and a quote if there is one. -/
structure Nesting where
  depth : Nat
  quote : Option Char
  deriving DecidableEq

namespace Nesting

def outside : Nesting :=
  ⟨0, none⟩

def isQuote (character : Char) : Bool :=
  character = '\x22' || character = '\x27' || character = '\x60'

def isOpening (character : Char) : Bool :=
  character = '(' || character = '[' || character = '{'

def isClosing (character : Char) : Bool :=
  character = ')' || character = ']' || character = '}'

def after (nesting : Nesting) (character : Char) : Nesting :=
  match nesting.quote with
  | some quote => if character = quote then ⟨nesting.depth, none⟩ else nesting
  | none =>
    if isQuote character then ⟨nesting.depth, some character⟩
    else if isOpening character then ⟨nesting.depth + 1, none⟩
    else if isClosing character then ⟨nesting.depth - 1, none⟩
    else nesting

/-- Whether the character separates two arguments. -/
def isCut (nesting : Nesting) (character : Char) : Bool :=
  character = ',' && nesting = outside

end Nesting

/-- Puts a character in front of the first of several pieces. -/
def onFirstPiece (character : Char) : List Text → List Text
  | [] => [[character]]
  | first :: rest => (character :: first) :: rest

/-- The pieces of a text between the commas that separate arguments. -/
def pieces (nesting : Nesting) : Text → List Text
  | [] => [[]]
  | character :: rest =>
    if nesting.isCut character then [] :: pieces nesting rest
    else onFirstPiece character (pieces (nesting.after character) rest)

/-- The argument expressions of a list, without outer blanks; blank ones are left out. -/
def splitArguments (source : Text) : List Text :=
  ((pieces .outside source).map Text.trim).filter fun argument => !argument.isEmpty

end TreeTemplate.Markup
