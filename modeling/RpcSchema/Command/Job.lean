/-
  RpcSchema.Command.Job
  ─────────────────────
  **Compile jobs.**

  A job is what settings come to once everything required is there.
  `check` compiles without writing anything; `compile` also writes the
  schema text to its place, as a whole or not at all.
-/
import RpcSchema.Command.Settings
import RpcSchema.Conversion.Compile
import RpcSchema.Manifest.Load
import RpcSchema.Proto.Layout

namespace RpcSchema

/-- A compilation with its input and its output. -/
structure Job where
  /-- The directory of the manifests, or a single manifest. -/
  manifestRoot : String
  output : String
  options : CompileOptions
  deriving DecidableEq

/-- Where the schema text goes if nothing else is said. -/
def defaultOutput : String := "schema.proto"

/-- The job of some settings, if they give all that is required. -/
def Settings.job (s : Settings) : Except CommandError Job :=
  match s.manifestRoot, s.package, s.entrypoint with
  -- the first setting that is missing is the one reported
  | .none, _, _ => .error (.missing .manifestRoot)
  | .some _, .none, _ => .error (.missing .package)
  | .some _, .some _, .none => .error (.missing .entrypoint)
  | .some manifestRoot, .some package, .some entrypoint =>
    .ok {
      manifestRoot
      output := s.output.getD defaultOutput
      options := {
        package
        entrypoint
        excluded := s.excluded.getD defaultExcluded
        fieldless := s.fieldless.getD []
        service := s.service
        protoPackage := s.protoPackage
        options := s.options
        sortMethods := s.sortMethods.getD false } }

/-- What a successful run reports. -/
structure Summary where
  service : String
  methods : Nat
  types : Nat
  deriving DecidableEq, Repr

/-- What is reported of a schema: the types counted are its definitions, not the wrappers. -/
def Schema.summary (s : Schema) : Summary :=
  ⟨s.service, s.methods.length, s.definitions.length⟩

namespace Job

variable {m : Type → Type} [Monad m] [Storage m]

/-- The schema of a job. -/
def schema (job : Job) : m (Except CommandError Schema) := do
  let loaded ← Manifest.load job.manifestRoot job.options.package
  return (compileLoaded job.options loaded).mapError .compile

/-- Compiles without writing anything. -/
def check (job : Job) : m (Except CommandError Summary) := do
  match ← job.schema with
  | .error e => return .error e
  | .ok s => return .ok s.summary

/-- Compiles and writes the schema text. -/
def compile (job : Job) : m (Except CommandError Summary) := do
  match ← job.schema with
  | .error e => return .error e
  | .ok s =>
    match ← Storage.replace job.output s.document.steps with
    | .error detail => return .error (.unwritable job.output detail)
    | .ok () => return .ok s.summary

end Job

end RpcSchema
