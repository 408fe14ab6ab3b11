/-
  RpcSchema.Package.LoadError
  ───────────────────────────
  **Why a package could not be loaded.**

  A manifest may be unreadable, malformed, about another package, or
  wrong in what it declares.  Malformed text is found before anything it
  declares is looked at.
-/
import RpcSchema.Json.Value
import RpcSchema.TypeExpr.Basic

namespace RpcSchema

/-- A failure to produce the symbol table of a package. -/
inductive LoadError where
  /-- The file could not be read; the system says why. -/
  | unreadable (path detail : String)
  | malformed (path : String) (fault : Json.Fault)
  | packageMismatch (expected found : String)
  /-- A type expression is at fault at a byte offset. -/
  | typeExpr (expr : String) (offset : Nat) (fault : TypeExpr.Fault)
  | unknownType (name : String)
  | undefined (name : String)
  | duplicateType (name : String)
  | misplacedVariadic (method expr : String)
  deriving DecidableEq, Repr

/-- The wording of a load error. -/
def LoadError.message : LoadError → String
  | .unreadable path detail =>
    "failed to read package manifest `" ++ path ++ "`: " ++ detail
  | .malformed path fault =>
    "malformed package manifest `" ++ path ++ "`: " ++ fault.message
  | .packageMismatch expected found =>
    "manifest describes package `" ++ found ++ "`, expected `" ++ expected ++ "`"
  | .typeExpr expr offset fault =>
    "invalid type expression `" ++ expr ++ "` at offset " ++ toString offset ++ ": "
      ++ fault.message
  | .unknownType name => "unknown type `" ++ name ++ "`"
  | .undefined name => "type `" ++ name ++ "` is declared but never defined"
  | .duplicateType name => "type `" ++ name ++ "` is declared more than once"
  | .misplacedVariadic method expr =>
    "variadic parameter `" ++ expr ++ "` of `" ++ method ++ "` must be its last parameter"

end RpcSchema
