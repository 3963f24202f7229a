import TreeTemplate.Text.Basic

/-!
# Lexical contexts

A placeholder is a dollar sign, an opening brace, an expression and a closing brace. To find its
end one has to know what each character stands in: quotes, backtick templates, inner braces, or
behind a backslash. This module holds the contexts and the one table of the scanner: what a
character does in a context, given the character after it. Nothing is ever evaluated.
-/
set_option autoImplicit false

namespace TreeTemplate.Placeholder

/-- What a character stands in. -/
inductive Context where
  /-- Outside all placeholders. -/
  | plain
  | escaped
  | doubleQuoted
  | singleQuoted
  /-- At the brace that opens a placeholder. -/
  | opening
  /-- In the expression of a placeholder, or between braces in one. -/
  | expression
  | template
  deriving DecidableEq

/-- What a character does to the stack of contexts. -/
inductive Action where
  | keep
  | push (context : Context)
  | pop
  | replace (context : Context)
  deriving DecidableEq

/-- Whether a character is a candidate for the start or the end of a placeholder. -/
inductive Mark where
  | unmarked
  | start
  | stop
  deriving DecidableEq

/-- The effect of one character. -/
structure Step where
  action : Action
  mark : Mark
  /-- Whether the character is written with a backslash before it. -/
  escape : Bool
  deriving DecidableEq

def Step.only (action : Action) : Step :=
  ⟨action, .unmarked, false⟩

/-- What text does outside placeholders and between backticks: a dollar sign before a brace opens a
placeholder, and a backslash takes the next character with it. -/
def textAction (character : Char) (next : Option Char) : Action :=
  if character = '$' ∧ next = some '{' then .push .opening
  else if character = '\\' then .push .escaped
  else .keep

/-- What an expression does: quotes, backticks and braces open, and a closing brace closes. -/
def expressionStep (character : Char) : Step :=
  if character = '\x22' then .only (.push .doubleQuoted)
  else if character = '\x27' then .only (.push .singleQuoted)
  else if character = '\x60' then .only (.push .template)
  else if character = '{' then .only (.push .expression)
  else if character = '}' then ⟨.pop, .stop, false⟩
  else .only .keep

/-- What a character does in a context, given the character after it. A backslash means nothing
between quotes. Outside placeholders a backtick is escaped and every dollar sign is marked, also one
that opens nothing. -/
def transition (context : Context) (character : Char) (next : Option Char) : Step :=
  match context with
  | .escaped => .only .pop
  | .doubleQuoted => .only (if character = '\x22' then .pop else .keep)
  | .singleQuoted => .only (if character = '\x27' then .pop else .keep)
  | .opening => .only (.replace .expression)
  | .plain =>
    if character = '\x60' then ⟨.keep, .unmarked, true⟩
    else if character = '$' then ⟨textAction character next, .start, false⟩
    else .only (textAction character next)
  | .template =>
    if character = '\x60' then .only .pop else .only (textAction character next)
  | .expression => expressionStep character

/-- The contexts above the plain one that a text starts in, the innermost first. -/
abbrev Stack := List Context

def Stack.top : Stack → Context
  | [] => .plain
  | context :: _ => context

def Action.apply : Action → Stack → Stack
  | .keep, stack => stack
  | .push context, stack => context :: stack
  | .pop, stack => stack.tail
  | .replace context, stack => context :: stack.tail

end TreeTemplate.Placeholder
