/-
  RpcSchema.Command.Outcome
  ─────────────────────────
  **The program as a function of its arguments.**

  A run writes to two streams and ends with an exit status: zero when it
  did what it was asked for, one otherwise.  It starts by putting a log
  filter in force; nothing of what is logged under it is among the texts
  here.

  Main statement: `exists_log_run` (a run with arguments has a log filter,
  and never a blank one).
-/
import RpcSchema.Command.Arguments
import RpcSchema.Command.LogFilter
import RpcSchema.Diagnostic.Explanation

namespace RpcSchema

/-- What a run of the program shows. -/
structure Outcome where
  exit : Nat
  stdout : String
  stderr : String
  /-- The log filter that was in force; a run without arguments ends before there is one. -/
  log : Option String
  deriving DecidableEq, Repr

namespace Command

/-! ## §1. Texts. -/

/-- The name of the program in its texts. -/
def programName : String := "tyrpc"

/-- The version of the program. -/
def version : String := "0.1.0"

/-- What the program answers when it is asked for help. -/
def usage : String := Text.ofLines
  ["tyrpc: compile a package's service surface into a proto3 schema",
   "",
   "Usage: tyrpc <command> [options]",
   "",
   "Commands:",
   "  compile <manifest-root>  Compile and write the schema",
   "  check <manifest-root>    Compile without writing anything",
   "  explain <code>           Explain an error code (e.g., E1001)",
   "  help                     Show this help message",
   "  version                  Show version information",
   "",
   "Compile options:",
   "  --package=<id>           Package identifier to load (required)",
   "  --entrypoint=<Type>      Type whose methods form the service (required)",
   "  --exclude=<A,B>          Methods to skip (default: Open,Close,AddHandler,AddHandlerOnce)",
   "  --fieldless=<X,Y>        Struct types emitted without fields",
   "  --option=<key=value>     Schema-level option, repeatable",
   "  --proto-package=<name>   Schema package statement",
   "  --service=<Name>         Service name (default: entrypoint name)",
   "  --sort-methods           Emit methods alphabetically",
   "  --config=<file.json>     Read settings from a JSON file; flags win",
   "  --log=<filter>           Log filter (default: TYRPC_LOG, RUST_LOG, warn)",
   "  -o <path>                Output file (default: schema.proto)",
   "",
   "Examples:",
   "  tyrpc compile manifests --package=github.com/acme/chat --entrypoint=Client",
   "  tyrpc compile chat.json --package=github.com/acme/chat --entrypoint=Client -o chat.proto",
   "  tyrpc check --config=tyrpc.json",
   "  tyrpc explain E1003"]

/-- What a compile command without arguments answers. -/
def compileUsage (command : String) : String := Text.ofLines
  ["Usage: " ++ programName ++ " " ++ command
     ++ " <manifest-root> --package=<id> --entrypoint=<Type> [options]",
   "",
   "Run `" ++ programName ++ " help` for the full list of options."]

/-- What `explain` without a code answers. -/
def explainUsage : String := Text.ofLines
  ["Usage: " ++ programName ++ " explain <ERROR_CODE>",
   "Example: " ++ programName ++ " explain E1001"]

/-- The counts of a summary. -/
def counts (s : Summary) : String :=
  toString s.methods ++ " methods, " ++ toString s.types ++ " types"

/-- What a check that succeeded reports. -/
def checkedText (s : Summary) : String := Text.ofLines
  ["OK: service " ++ s.service ++ " (" ++ counts s ++ ")"]

/-- What a compilation that succeeded reports. -/
def writtenText (output : String) (s : Summary) : String := Text.ofLines
  ["OK: wrote " ++ output ++ " (service " ++ s.service ++ ", " ++ counts s ++ ")"]

/-! ## §2. Outcomes. -/

/-- The outcome of a run that did what it was asked for. -/
def success (stdout : String) : Outcome := ⟨0, stdout, "", none⟩

/-- The outcome of a run that could not do it. -/
def failure (stderr : String) : Outcome := ⟨1, "", stderr, none⟩

/-- The outcome of a run that ends with an error. -/
def reported (e : CommandError) : Outcome := failure (Text.ofLines [e.report])

/-- The explanation of a code. -/
def explain (code : String) : Except CommandError String :=
  match DiagnosticCode.parse? code with
  | some code => .ok code.explanation
  | none => .error (.unknownCode code)

/-- The outcome of `explain`. -/
def explainOutcome (code : String) : Outcome :=
  match explain code with
  | .ok text => success (Text.ofLines [text])
  | .error e =>
    failure (Text.ofLines
      [e.report,
       "",
       "Codes have the format EXXXX where X is a digit.",
       "Examples: E0001, E1001, E2001"])

/-! ## §3. The program. -/

variable {m : Type → Type} [Monad m] [Storage m]

/-- The job of the arguments of a compile command. -/
def jobOf (arguments : List String) : m (Except CommandError Job) :=
  match Arguments.parse arguments with
  | .error e => return .error e
  | .ok parsed => parsed.job

/-- Compiles the job of some arguments and reports what was written. -/
def runCompile (arguments : List String) : m Outcome := do
  match ← jobOf arguments with
  | .error e => return reported e
  | .ok job =>
    match ← job.compile with
    | .error e => return reported e
    | .ok summary => return success (writtenText job.output summary)

/-- Checks the job of some arguments and reports what would be written. -/
def runCheck (arguments : List String) : m Outcome := do
  match ← jobOf arguments with
  | .error e => return reported e
  | .ok job =>
    match ← job.check with
    | .error e => return reported e
    | .ok summary => return success (checkedText summary)

/-- Runs a command with its arguments. -/
def runCommand (command : String) (arguments : List String) : m Outcome :=
  if command = "compile" ∨ command = "check" then
    if arguments.isEmpty then return failure (compileUsage command)
    else if command = "compile" then runCompile arguments
    else runCheck arguments
  else if command = "explain" ∨ command = "--explain" then
    match arguments with
    | [] => return failure explainUsage
    | code :: _ => return explainOutcome code
  else if command = "help" ∨ command = "--help" ∨ command = "-h" then return success usage
  else if command = "version" ∨ command = "--version" ∨ command = "-V" then
    return success (Text.ofLines [programName ++ " " ++ version])
  -- the usage goes to the output, the complaint to the errors
  else return ⟨1, usage, Text.ofLines ["Unknown command: " ++ command, ""], none⟩

/-- Runs the program; the log filter is put in force before the command is looked at. -/
def run [Surroundings m] : List String → m Outcome
  | [] => return success usage
  | command :: arguments => do
    let filter ← logFilterOf (command :: arguments)
    let outcome ← runCommand command arguments
    return { outcome with log := some filter }

/-- **A run that is given arguments has a log filter in force, and it is not blank**, whatever the
command is and however it ends. -/
theorem exists_log_run {σ : Type} [Storage (StateM σ)] [Surroundings (StateM σ)] (command : String)
    (arguments : List String) (s : σ) :
    ∃ filter, ((run (command :: arguments) : StateM σ Outcome).run s).1.log = some filter ∧
      Text.isBlankText filter = false := by
  -- the two variables are looked up first, and the command leaves the choice alone
  let own := (Surroundings.lookup ownVariable : StateM σ (Option String)).run s
  let general := (Surroundings.lookup generalVariable : StateM σ (Option String)).run own.2
  exact ⟨logFilter (logFlag? (command :: arguments)) own.1 general.1, rfl,
    not_blank_logFilter _ _ _⟩

end Command

end RpcSchema
