import TreeTemplate.Command.Compile

/-!
# Command-line arguments

The command is `compile INPUT`, with the options `--property NAME`, which may be repeated,
`--items FILE` and `--button-activation`, and with `--` before arguments that are not options.
`--version` and `-V` stand before the command. There are no abbreviations.
-/
set_option autoImplicit false

namespace TreeTemplate.Command

/-- What the arguments ask for. -/
inductive Invocation where
  | version
  | compile (input : Text) (request : Request)

/-- The arguments taken so far. -/
structure Taken where
  input : Option Text
  properties : List Text
  items : Option Text
  buttonActivation : Bool

namespace Taken

def nothing : Taken :=
  ⟨none, [], none, false⟩

/-- Takes the name of the markup file, which must not be empty and is taken once. -/
def addInput? (taken : Taken) (name : Text) : Option Taken :=
  if name.isEmpty || taken.input.isSome then none else some { taken with input := some name }

def addProperty (taken : Taken) (name : Text) : Taken :=
  { taken with properties := taken.properties ++ [name] }

/-- Takes the name of the file of items, which must not be empty and is taken once. -/
def addItems? (taken : Taken) (name : Text) : Option Taken :=
  if name.isEmpty || taken.items.isSome then none else some { taken with items := some name }

def addButtonActivation? (taken : Taken) : Option Taken :=
  if taken.buttonActivation then none else some { taken with buttonActivation := true }

/-- The compilation that is asked for, if the markup file is named. -/
def finish? (taken : Taken) : Option Invocation :=
  taken.input.map fun input =>
    .compile input ⟨taken.properties, taken.items, taken.buttonActivation⟩

end Taken

/-- Whether an argument is an option: it starts with a dash and is more than that. -/
def isOption (argument : Text) : Bool :=
  argument.head? = some '-' && argument.length ≠ 1

/-- The value attached to a long option, if the argument is that option with an equals sign. -/
def attached? (option argument : Text) : Option Text :=
  let lead := option ++ ['=']
  if lead.isPrefixOf argument then some (argument.drop lead.length) else none

def takeNames (taken : Taken) : List Text → Option Taken
  | [] => some taken
  | name :: rest => (taken.addInput? name).bind fun extended => takeNames extended rest

def propertyOption : Text := "--property".toList

def itemsOption : Text := "--items".toList

def buttonOption : Text := "--button-activation".toList

def takeArguments (taken : Taken) : List Text → Option Taken
  | [] => some taken
  | argument :: rest =>
    if argument = "--".toList then takeNames taken rest
    else if argument = buttonOption then
      taken.addButtonActivation?.bind fun extended => takeArguments extended rest
    else if argument = propertyOption then
      match rest with
      | value :: later =>
        if isOption value then none else takeArguments (taken.addProperty value) later
      | [] => none
    else if argument = itemsOption then
      match rest with
      | value :: later =>
        if isOption value then none
        else (taken.addItems? value).bind fun extended => takeArguments extended later
      | [] => none
    else
      match attached? propertyOption argument, attached? itemsOption argument with
      | some value, _ => takeArguments (taken.addProperty value) rest
      | none, some value => (taken.addItems? value).bind fun extended => takeArguments extended rest
      | none, none =>
        if isOption argument then none
        else (taken.addInput? argument).bind fun extended => takeArguments extended rest

def Invocation.ofArguments? : List Text → Option Invocation
  | [] => none
  | first :: rest =>
    if first = "--version".toList || "-V".toList.isPrefixOf first then some .version
    else if first = "compile".toList then (takeArguments .nothing rest).bind Taken.finish?
    else none

end TreeTemplate.Command
