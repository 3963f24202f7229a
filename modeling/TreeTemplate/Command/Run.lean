import TreeTemplate.Command.Options

/-!
# Running the command

What a run of the command comes to: an exit status, what it prints, and the failure if there is one.
-/
set_option autoImplicit false

namespace TreeTemplate.Command

/-- How a run ends. -/
inductive Exit where
  | success (output : Text)
  | failure (reason : Failure)
  | usage

def Exit.status : Exit → Nat
  | success _ => 0
  | failure _ => 1
  | usage => 2

def Exit.output : Exit → Text
  | success output => output
  | _ => []

/-- The first line on a failure. -/
def Failure.headline (failure : Failure) : Text :=
  "Error: ".toList ++ (failure.messages.headD [])

def versionText : Text := "lite 0.1.0\n".toList

def run (read : FileReader) (arguments : List Text) : Exit :=
  match Invocation.ofArguments? arguments with
  | none => .usage
  | some .version => .success versionText
  | some (.compile input request) =>
    match compileFile read input request with
    | .ok output => .success output
    | .error reason => .failure reason

end TreeTemplate.Command
