import TreeTemplate.Markup.Error

/-!
# Failures of the command

Why a file cannot be compiled: a cause, and around it what was being done, the outermost first.
-/
set_option autoImplicit false

namespace TreeTemplate.Command

open Markup (MarkupError)

inductive ReadFault where
  | notFound
  | notText
  | other
  deriving DecidableEq

def ReadFault.message : ReadFault → Text
  | notFound => "no such file".toList
  | notText => "the content is not UTF-8".toList
  | other => "the file cannot be read".toList

/-- What lies at the bottom of a failure. -/
inductive Cause where
  | markup (reason : MarkupError)
  | file (fault : ReadFault)
  | notJson
  deriving DecidableEq

def Cause.message : Cause → Text
  | markup reason => reason.message
  | file fault => fault.message
  | notJson => "the text is not JSON".toList

/-- A cause and what was being done, the outermost first. -/
structure Failure where
  contexts : List Text
  cause : Cause
  deriving DecidableEq

namespace Failure

def within (context : Text) (failure : Failure) : Failure :=
  { failure with contexts := context :: failure.contexts }

def messages (failure : Failure) : List Text :=
  failure.contexts ++ [failure.cause.message]

end Failure

def withContext {α : Type} (context : Text) : Except Failure α → Except Failure α
  | .ok value => .ok value
  | .error failure => .error (failure.within context)

end TreeTemplate.Command
