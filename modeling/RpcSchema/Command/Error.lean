/-
  RpcSchema.Command.Error
  ───────────────────────
  **What a command can fail with.**

  Only a failed compilation has a code; it is part of the report.
-/
import RpcSchema.Conversion.Error

namespace RpcSchema

/-- A setting that a job cannot do without. -/
inductive Requirement where
  | manifestRoot | package | entrypoint
  deriving DecidableEq, Repr

/-- How the setting is called in an error: the argument that gives it. -/
def Requirement.text : Requirement → String
  | .manifestRoot => "manifest root"
  | .package => "--package"
  | .entrypoint => "--entrypoint"

/-- An error of a command. -/
inductive CommandError where
  | missing (what : Requirement)
  | unknownFlag (flag : String)
  | missingValue (flag : String)
  | invalidOption (text : String)
  | unexpectedArgument (argument : String)
  | unknownCode (code : String)
  | unreadableConfig (path detail : String)
  | malformedConfig (path : String) (fault : Json.Fault)
  | unwritable (path detail : String)
  | compile (error : CompileError)
  deriving DecidableEq, Repr

namespace CommandError

/-- The wording of an error. -/
def message : CommandError → String
  | .missing what => "missing " ++ what.text
  | .unknownFlag flag => "unknown flag `" ++ flag ++ "`"
  | .missingValue flag => "flag `" ++ flag ++ "` expects a value"
  | .invalidOption text => "invalid option `" ++ text ++ "`, expected `key=value`"
  | .unexpectedArgument argument => "unexpected argument `" ++ argument ++ "`"
  | .unknownCode code => "unknown error code `" ++ code ++ "`"
  | .unreadableConfig path detail => "failed to read config `" ++ path ++ "`: " ++ detail
  | .malformedConfig path fault => "malformed config `" ++ path ++ "`: " ++ fault.message
  | .unwritable path detail => "failed to write `" ++ path ++ "`: " ++ detail
  | .compile error => error.message

/-- The code of a failed compilation. -/
def code? : CommandError → Option DiagnosticCode
  | .compile error => some error.code
  | _ => none

/-- The report of an error, such as `error[E1001]: …`. -/
def report (e : CommandError) : String :=
  match e.code? with
  | some code => "error[" ++ code.text ++ "]: " ++ e.message
  | none => "error: " ++ e.message

end CommandError

end RpcSchema
