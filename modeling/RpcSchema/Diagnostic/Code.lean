/-
  RpcSchema.Diagnostic.Code
  ─────────────────────────
  **The codes of compile errors.**

  The first digit names the phase: `E0` loading, `E1` conversion, `E2` the
  schema as a whole.  Codes are read without regard to the case of their
  letter.
-/
import RpcSchema.Text.Letter

namespace RpcSchema

/-- The code of a compile error. -/
inductive DiagnosticCode where
  /-- The package could not be loaded. -/
  | e0001
  /-- The entrypoint is not declared by the package. -/
  | e0002
  /-- A basic kind has no scalar. -/
  | e1001
  /-- A native shape is outside the convertible set. -/
  | e1002
  /-- A map key is nothing the schema format can key on. -/
  | e1003
  /-- Two blocks share a name. -/
  | e2001
  deriving DecidableEq, Repr

namespace DiagnosticCode

/-- All codes. -/
def all : List DiagnosticCode :=
  [.e0001, .e0002, .e1001, .e1002, .e1003, .e2001]

/-- A code as it is shown and asked for. -/
def text : DiagnosticCode → String
  | .e0001 => "E0001"
  | .e0002 => "E0002"
  | .e1001 => "E1001"
  | .e1002 => "E1002"
  | .e1003 => "E1003"
  | .e2001 => "E2001"

/-- Reads a code; `e1001` is one as well. -/
def parse? (s : String) : Option DiagnosticCode :=
  all.find? fun code => code.text.toList = s.toList.map Char.toUpper

/-- No code is missing in the list. -/
theorem mem_all (code : DiagnosticCode) : code ∈ all := by
  cases code <;> decide

/-- A code is read back from its text. -/
theorem parse?_text (code : DiagnosticCode) : parse? code.text = some code := by
  cases code <;> decide +kernel

end DiagnosticCode

end RpcSchema
