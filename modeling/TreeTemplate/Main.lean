import TreeTemplate.Command.Run

/-!
# The command line

Reads the files, prints the output or the failure, and sets the exit status.
-/
set_option autoImplicit false

namespace TreeTemplate.Command

def readFile (name : Text) : IO (Except ReadFault Text) := do
  try
    let bytes ← IO.FS.readBinFile (String.ofList name)
    match String.fromUTF8? bytes with
    | some content => return .ok content.toList
    | none => return .error .notText
  catch
    | .noFileOrDirectory .. => return .error .notFound
    | _ => return .error .other

def filesOf (arguments : List Text) : List Text :=
  match Invocation.ofArguments? arguments with
  | some (.compile input request) => input :: request.items.toList
  | _ => []

/-- Runs the command on the files of the current directory. -/
def runHere (arguments : List Text) : IO UInt32 := do
  let contents ← (filesOf arguments).mapM fun name => do return (name, ← readFile name)
  let read : FileReader := fun name => (Entries.lookup name contents).getD (.error .notFound)
  let exit := run read arguments
  IO.print (String.ofList exit.output)
  match exit with
  | .success _ => pure ()
  | .failure reason => do
    IO.eprintln (String.ofList reason.headline)
    reason.messages.tail.forM fun message => IO.eprintln (String.ofList ("  ".toList ++ message))
  | .usage => IO.eprintln "usage: compile [--property NAME] [--items FILE] [--button-activation] INPUT"
  return exit.status.toUInt32

end TreeTemplate.Command

def main (arguments : List String) : IO UInt32 :=
  TreeTemplate.Command.runHere (arguments.map String.toList)
