import TreeTemplate.Placeholder.Context

/-!
# Scanning texts with placeholders

A scan of a text takes one step for each character. What it does is told by three functions of the
text: the steps taken, the stack they leave, and the text they write.

Main definition: `enclose?` accepts a text in which everything that is opened is closed again, and
tells a text that is one placeholder from one that mixes placeholders with other text.
-/
set_option autoImplicit false

namespace TreeTemplate.Placeholder

def stepAt (stack : Stack) (character : Char) (rest : Text) : Step :=
  transition stack.top character rest.head?

/-- The stack that a text leaves. -/
def settle (stack : Stack) : Text → Stack
  | [] => stack
  | character :: rest => settle ((stepAt stack character rest).action.apply stack) rest

def steps (stack : Stack) : Text → List Step
  | [] => []
  | character :: rest =>
    let step := stepAt stack character rest
    step :: steps (step.action.apply stack) rest

/-- The text with a backslash before every character whose step asks for one. -/
def escapedText (stack : Stack) : Text → Text
  | [] => []
  | character :: rest =>
    let step := stepAt stack character rest
    let written := character :: escapedText (step.action.apply stack) rest
    if step.escape then '\\' :: written else written

/-- Whether the last start of the marks is the first of them all and the last of them is a stop.
Of a text that leaves nothing open this says that it is a single placeholder. -/
def isSinglePlaceholder : List Mark → Bool
  | .start :: rest => !rest.contains .start && rest.getLast? = some .stop
  | _ => false

/-- Whether everything that the text opens is closed in it. -/
def isBalanced (text : Text) : Bool :=
  settle [] text = []

/-- The text as it is written where placeholders are kept: a single placeholder as it is, and a
mixed text between `opening` and `closing`, with its own backticks escaped. There is none for a
text that leaves a quote, a backtick, a brace or a backslash open. -/
def enclose? (opening closing text : Text) : Option Text :=
  if isBalanced text then
    let written := escapedText [] text
    if isSinglePlaceholder ((steps [] text).map Step.mark) then some written
    else some (opening ++ written ++ closing)
  else none

end TreeTemplate.Placeholder
