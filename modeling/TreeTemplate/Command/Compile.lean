import TreeTemplate.Command.Failure
import TreeTemplate.Json.Reader
import TreeTemplate.Markup.Basic

/-!
# Compiling files

A markup file becomes its template, followed by one line for each item: the values of all property
bindings for the item, as a JSON object. Files are read through a function, so that what the
command does is a function of what the files hold.
-/
set_option autoImplicit false

namespace TreeTemplate.Command

/-- The content of files by their names. -/
abbrev FileReader := Text → Except ReadFault Text

/-- What is asked for besides the markup: fields that the template reads by name, a file of items,
and a click listener on every button. -/
structure Request where
  properties : List Text
  items : Option Text
  buttonActivation : Bool

def buttonPolicy : ActivationPolicy Json LogRecord :=
  .forTag "button".toList "click".toList LogRecord.buttonClicked

/-- The renderer of a markup file with the named properties and the policy that are asked for. -/
def prepare (source : Text) (request : Request) : Except Cause (Renderer Json LogRecord) :=
  match Markup.parse source with
  | .error reason => .error (.markup reason)
  | .ok markup =>
    match markup.renderer id with
    | .error reason => .error (.markup (.template reason))
    | .ok renderer =>
      let named := request.properties.foldl
        (fun current name => current.withProperty name (fieldProvider name)) renderer
      .ok (if request.buttonActivation then named.withPolicy buttonPolicy else named)

def compileMarkup (source : Text) (request : Request) :
    Except Cause (CompiledTemplate Json LogRecord) :=
  match prepare source request with
  | .error cause => .error cause
  | .ok renderer =>
    match renderer.render.1 with
    | .error reason => .error (.markup (.template reason))
    | .ok issue => .ok issue.compiled

def readNamed (read : FileReader) (name : Text) : Except Failure Text :=
  match read name with
  | .ok content => .ok content
  | .error fault => .error ⟨["failed to read ".toList ++ name], .file fault⟩

/-- The items in a JSON value: those of an array, or the value alone. -/
def itemsOf : Json → List Json
  | .array items => items
  | single => [single]

def readItems (read : FileReader) (name : Text) : Except Failure (List Json) :=
  match readNamed read name with
  | .error failure => .error failure
  | .ok content =>
    match Json.read? content with
    | some value => .ok (itemsOf value)
    | none => .error ⟨[name ++ " is not valid JSON".toList], .notJson⟩

def itemLine (bindings : Bindings Json LogRecord) (item : Json) : Text :=
  (Json.ofMap (bindings.resolve item)).compact ++ ['\n']

/-- The template of a markup source and the lines of the items that are asked for. -/
def compileSource (read : FileReader) (source : Text) (request : Request) : Except Failure Text :=
  match compileMarkup source request with
  | .error cause => .error ⟨[], cause⟩
  | .ok compiled =>
    match request.items with
    | none => .ok compiled.template
    | some name =>
      match readItems read name with
      | .error failure => .error failure
      | .ok items => .ok (compiled.template ++ items.flatMap (itemLine compiled.bindings))

def compileFile (read : FileReader) (input : Text) (request : Request) : Except Failure Text :=
  match readNamed read input with
  | .error failure => .error failure
  | .ok source =>
    withContext ("failed to compile ".toList ++ input) (compileSource read source request)

end TreeTemplate.Command
