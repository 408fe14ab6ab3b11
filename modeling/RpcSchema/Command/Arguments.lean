/-
  RpcSchema.Command.Arguments
  ───────────────────────────
  **The arguments of the compile commands.**

      -o <path>           the output
      --sort-methods      methods by name
      --flag=value        any other setting
      <manifest-root>     at most once

  A flag that is given again keeps its later value.  The first fault from
  the left is the answer.
-/
import RpcSchema.Command.Job
import RpcSchema.Text.Blank

namespace RpcSchema

/-- What the arguments of a compile command say. -/
structure Arguments where
  config : Option String
  log : Option String
  settings : Settings
  deriving DecidableEq

namespace Arguments

/-- Nothing is given. -/
def none : Arguments := ⟨.none, .none, .none⟩

/-! ## §1. Single arguments. -/

/-- The items of a comma-separated list, trimmed; blank ones are left out. -/
def listItems (value : String) : List String :=
  ((Text.split ',' value).map Text.trim).filter (· ≠ "")

/-- A schema option given as `key=value`. -/
def optionEntry (text : String) : Except CommandError (String × String) :=
  match Text.splitFirst '=' text with
  | some (key, value) => if key = "" then .error (.invalidOption text) else .ok (key, value)
  | .none => .error (.invalidOption text)

/-- Changes the settings. -/
def set (a : Arguments) (f : Settings → Settings) : Arguments :=
  { a with settings := f a.settings }

/-- Takes in `flag=value`. -/
def addValue (a : Arguments) (flag value : String) : Except CommandError Arguments :=
  if flag = "--package" then .ok (a.set ({ · with package := value }))
  else if flag = "--entrypoint" then .ok (a.set ({ · with entrypoint := value }))
  else if flag = "--exclude" then .ok (a.set ({ · with excluded := listItems value }))
  else if flag = "--fieldless" then .ok (a.set ({ · with fieldless := listItems value }))
  else if flag = "--option" then do
    let (key, value) ← optionEntry value
    return a.set fun s => { s with options := s.options.insert key value }
  else if flag = "--proto-package" then .ok (a.set ({ · with protoPackage := value }))
  else if flag = "--service" then .ok (a.set ({ · with service := value }))
  else if flag = "--config" then .ok { a with config := value }
  else if flag = "--log" then .ok { a with log := value }
  else if flag = "--output" then .ok (a.set ({ · with output := value }))
  else .error (.unknownFlag flag)

/-- The flags that are reported to lack a value when they stand alone. -/
def valueFlags : List String :=
  ["--package", "--entrypoint", "--config", "--option"]

/-- Takes in an argument that is neither a flag with a value nor one of the single flags. -/
def addPlain (a : Arguments) (argument : String) : Except CommandError Arguments :=
  if argument.toList.head? = some '-' then
    if valueFlags.contains argument then .error (.missingValue argument)
    else .error (.unknownFlag argument)
  else if a.settings.manifestRoot.isNone then
    .ok (a.set ({ · with manifestRoot := argument }))
  else .error (.unexpectedArgument argument)

/-- The flag and the value of `--flag=value`. -/
def flagValue? (argument : String) : Option (String × String) :=
  if ['-', '-'].isPrefixOf argument.toList then Text.splitFirst '=' argument else .none

/-- Takes in one argument; `-o`, which takes a second one, is not among them. -/
def add (a : Arguments) (argument : String) : Except CommandError Arguments :=
  if argument = "--sort-methods" then .ok (a.set ({ · with sortMethods := true }))
  else
    match flagValue? argument with
    | some (flag, value) => a.addValue flag value
    | .none => a.addPlain argument

/-! ## §2. All arguments. -/

/-- The flag of the output. -/
def outputFlag : String := "-o"

/-- Takes in arguments from left to right. -/
def addAll (a : Arguments) : List String → Except CommandError Arguments
  | [] => .ok a
  -- the output flag takes the next argument, whatever it looks like
  | [argument] =>
    if argument = outputFlag then .error (.missingValue outputFlag) else a.add argument
  | argument :: next :: rest =>
    if argument = outputFlag then (a.set ({ · with output := next })).addAll rest
    else
      match a.add argument with
      | .error e => .error e
      | .ok a => a.addAll (next :: rest)

/-- What the arguments after the name of the command say. -/
def parse (arguments : List String) : Except CommandError Arguments :=
  none.addAll arguments

/-- The job of the arguments: the flags win over the config file. -/
def job {m : Type → Type} [Monad m] [Storage m] (a : Arguments) :
    m (Except CommandError Job) := do
  match a.config with
  | .none => return (Settings.none.merge a.settings).job
  | some path =>
    match ← Settings.load path with
    | .error e => return .error e
    | .ok base => return (base.merge a.settings).job

end Arguments

end RpcSchema
