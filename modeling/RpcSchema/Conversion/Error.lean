/-
  RpcSchema.Conversion.Error
  ──────────────────────────
  **Why a package does not compile.**

  An error says what is wrong, and under it, from the inside out, where in
  the type graph it was met.
-/
import RpcSchema.Diagnostic.Code
import RpcSchema.Native.Kind
import RpcSchema.Package.LoadError

namespace RpcSchema

/-- A step on the way to the type at fault. -/
inductive Place where
  | field (name owner : String)
  | implementation (name interface : String)
  /-- Parameters and results are counted from one. -/
  | parameter (position : Nat) (method : String)
  | result (position : Nat) (method : String)
  deriving DecidableEq, Repr

/-- The wording of a place. -/
def Place.text : Place → String
  | .field name owner => "field `" ++ name ++ "` of `" ++ owner ++ "`"
  | .implementation name interface =>
    "implementation `" ++ name ++ "` of `" ++ interface ++ "`"
  | .parameter position method =>
    "parameter " ++ toString position ++ " of method `" ++ method ++ "`"
  | .result position method =>
    "result " ++ toString position ++ " of method `" ++ method ++ "`"

/-- An error of one compilation. -/
inductive CompileError where
  | loadFailure (package : String) (cause : LoadError)
  | missingEntrypoint (name package : String)
  | unsupportedScalar (type kind : String)
  | unsupportedShape (type : String) (shape : ShapeKind)
  | unsupportedMapKey (key map : String)
  | duplicateTypeName (name : String)
  /-- The conversion nests deeper than its budget allows. -/
  | tooDeep
  | within (cause : CompileError) (place : Place)
  deriving DecidableEq, Repr

namespace CompileError

/-- The error under all places. -/
def root : CompileError → CompileError
  | .within cause _ => cause.root
  | e => e

/-- The wording of an error, one line per place. -/
def message : CompileError → String
  | .loadFailure package cause =>
    "failed to load package `" ++ package ++ "`: " ++ cause.message
  | .missingEntrypoint name package =>
    "entrypoint type `" ++ name ++ "` not found in package `" ++ package ++ "`"
  | .unsupportedScalar type kind =>
    "unsupported scalar `" ++ kind ++ "` in type `" ++ type ++ "`"
  | .unsupportedShape type shape => "unsupported " ++ shape.name ++ " type `" ++ type ++ "`"
  | .unsupportedMapKey key map => "unsupported map key `" ++ key ++ "` in `" ++ map ++ "`"
  | .duplicateTypeName name => "type name `" ++ name ++ "` is defined more than once"
  | .tooDeep => "types are nested too deeply"
  | .within cause place => cause.message ++ "\n  in " ++ place.text

/-- The code of an error, whatever its places. -/
def code : CompileError → DiagnosticCode
  | .loadFailure _ _ => .e0001
  | .missingEntrypoint _ _ => .e0002
  | .unsupportedScalar _ _ => .e1001
  | .unsupportedShape _ _ => .e1002
  | .unsupportedMapKey _ _ => .e1003
  | .duplicateTypeName _ => .e2001
  | .tooDeep => .e1002
  | .within cause _ => cause.code

/-- Under all places there is no further place. -/
theorem root_ne_within (e cause : CompileError) (place : Place) :
    e.root ≠ .within cause place := by
  induction e with
  | within cause _ ih => exact ih
  | _ => simp [root]

/-- Places do not change the code of an error. -/
@[simp] theorem code_root (e : CompileError) : e.root.code = e.code := by
  induction e with
  | within cause _ ih => exact ih
  | _ => rfl

end CompileError

end RpcSchema
