/-
  RpcSchema.Conversion.Service
  ────────────────────────────
  **The methods of a service.**

  Every exported method of the entrypoint becomes a request and a response
  message.  A variadic last parameter is left out.  A parameter or result
  without a name, or with a blank one, is named after its position, and a
  last result of the builtin error type is named `Error`.
-/
import RpcSchema.Conversion.Convert
import RpcSchema.Schema.Basic

namespace RpcSchema

/-- The field name of a trailing error. -/
def errorField : String := "Error"

/-- The field name of a parameter or result at a position, counted from zero. -/
def fieldName (v : Var) (position : Nat) : String :=
  match v.name with
  | some name =>
    if name = "" ∨ name = "_" then "Field" ++ toString (position + 1) else name
  | none => "Field" ++ toString (position + 1)

/-- The parameters that a request carries. -/
def Signature.requestParams (g : Signature) : List Var :=
  if g.variadic then g.params.dropLast else g.params

namespace Source

variable (s : Source)

/-- The field name of a result at a position, counted from zero, of `count` results. -/
def resultName (count : Nat) (v : Var) (position : Nat) : String :=
  if position + 1 = count && s.types.isError v.type then errorField else fieldName v position

/-- The fields of the request of a method. -/
def requestFields (m : Method) : Conversion (List MessageField) :=
  m.signature.requestParams.zipIdx.mapM fun (v, i) => do
    let type ← (s.convert v.type).within (.parameter (i + 1) m.name)
    return ⟨fieldName v i, type⟩

/-- The fields of the response of a method. -/
def responseFields (m : Method) : Conversion (List MessageField) :=
  m.signature.results.zipIdx.mapM fun (v, i) => do
    let type ← (s.convert v.type).within (.result (i + 1) m.name)
    return ⟨s.resultName m.signature.results.length v i, type⟩

/-- A method of the service. -/
def extractMethod (m : Method) : Conversion RpcMethod := do
  let requestFields ← s.requestFields m
  let responseFields ← s.responseFields m
  let request ← Conversion.add (·.message (m.name ++ "Request") requestFields)
  let response ← Conversion.add (·.message (m.name ++ "Response") responseFields)
  return ⟨m.name, request, response⟩

/-- The methods of the service of an entrypoint, in declaration order, without the excluded
ones. -/
def extractMethods (entrypoint : NativeId) (excluded : List String) :
    Conversion (List RpcMethod) :=
  ((s.package.exportedMethods entrypoint).filter fun m => !excluded.contains m.name).mapM
    s.extractMethod

end Source

end RpcSchema
