/-
  RpcSchema.Manifest.Basic
  ────────────────────────
  **Package manifests: what a package declares, as it is written down.**

  A manifest lists named types with their underlying types and methods,
  and typed constants.  Types are referred to by type expressions, which
  are kept as texts here: reading a manifest only checks its structure.
-/
import RpcSchema.Json.Reader
import RpcSchema.Json.Record

namespace RpcSchema

/-! ## §1. Declarations. -/

/-- A parameter, a result or a struct field; a struct field without a name is embedded. -/
structure VarDecl where
  name : Option String
  type : String
  deriving DecidableEq, Repr

/-- A method as it is declared, its types given by expressions. -/
structure MethodDecl where
  name : String
  params : List VarDecl
  results : List VarDecl
  deriving DecidableEq, Repr

/-- The underlying type of a declared type. -/
inductive UnderlyingDecl where
  | struct (fields : List VarDecl)
  | interface (methods : List MethodDecl) (embeds : List String)
  | type (expr : String)
  deriving DecidableEq, Repr

/-- A declared type with its methods. -/
structure TypeDecl where
  name : String
  underlying : UnderlyingDecl
  methods : List MethodDecl
  deriving DecidableEq, Repr

/-- A typed constant, with the text of its value. -/
structure ConstDecl where
  name : String
  type : String
  literal : String
  deriving DecidableEq, Repr

/-- The declarations of a package, as they are written. -/
structure Manifest where
  path : String
  name : Option String
  types : List TypeDecl
  constants : List ConstDecl
  deriving DecidableEq, Repr

/-! ## §2. Reading. -/

open Json (slots slot required optional defaulted asText asList)

/-- Reads a parameter, a result or a field. -/
def VarDecl.ofJson (j : Json) : Except Json.Fault VarDecl := do
  let values ← slots ["name", "type"] j
  return {
    name := ← optional asText (slot values 0)
    type := ← required "type" asText (slot values 1) }

/-- Reads a method; parameters and results may be left off. -/
def MethodDecl.ofJson (j : Json) : Except Json.Fault MethodDecl := do
  let values ← slots ["name", "params", "results"] j
  return {
    name := ← required "name" asText (slot values 0)
    params := ← defaulted [] (asList VarDecl.ofJson) (slot values 1)
    results := ← defaulted [] (asList VarDecl.ofJson) (slot values 2) }

/-- The key that tells which underlying type is meant. -/
def kindKey : String := "kind"

/-- Splits a tagged record into its tag and the record without it: the tag is the entry of
`kindKey`, or the first item of a list. -/
def splitTag : Json → Except Json.Fault (String × Json)
  | .object entries =>
    match entries.filter (·.1 = kindKey) with
    | [] => .error (.missingKey kindKey)
    | [(_, tag)] => do return (← asText tag, .object (entries.filter (·.1 ≠ kindKey)))
    | _ => .error (.repeatedKey kindKey)
  | .array (tag :: items) => do return (← asText tag, .array items)
  | _ => .error (.wrongShape "a record with a kind")

/-- Reads an underlying type, in the form that its tag tells. -/
def UnderlyingDecl.ofJson (j : Json) : Except Json.Fault UnderlyingDecl := do
  let (tag, record) ← splitTag j
  if tag = "struct" then
    let values ← slots ["fields"] record
    return .struct (← defaulted [] (asList VarDecl.ofJson) (slot values 0))
  else if tag = "interface" then
    let values ← slots ["methods", "embeds"] record
    return .interface
      (← defaulted [] (asList MethodDecl.ofJson) (slot values 0))
      (← defaulted [] (asList asText) (slot values 1))
  else if tag = "type" then
    let values ← slots ["expr"] record
    return .type (← required "expr" asText (slot values 0))
  else throw (.wrongShape "a kind: struct, interface or type")

/-- Reads a declared type; its methods may be left off. -/
def TypeDecl.ofJson (j : Json) : Except Json.Fault TypeDecl := do
  let values ← slots ["name", "underlying", "methods"] j
  return {
    name := ← required "name" asText (slot values 0)
    underlying := ← required "underlying" UnderlyingDecl.ofJson (slot values 1)
    methods := ← defaulted [] (asList MethodDecl.ofJson) (slot values 2) }

/-- The text of a constant's value: a string as it is, a number as it is kept. -/
def literalOfJson : Json → Except Json.Fault String
  | .number n => .ok n.text
  | .text s => .ok s
  | _ => .error (.wrongShape "a number or a string")

/-- Reads a constant. -/
def ConstDecl.ofJson (j : Json) : Except Json.Fault ConstDecl := do
  let values ← slots ["name", "type", "value"] j
  return {
    name := ← required "name" asText (slot values 0)
    type := ← required "type" asText (slot values 1)
    literal := ← required "value" literalOfJson (slot values 2) }

/-- Reads a manifest from its record; a package without types or constants need not list them. -/
def Manifest.ofJson (j : Json) : Except Json.Fault Manifest := do
  let values ← slots ["path", "name", "types", "constants"] j
  return {
    path := ← required "path" asText (slot values 0)
    name := ← optional asText (slot values 1)
    types := ← defaulted [] (asList TypeDecl.ofJson) (slot values 2)
    constants := ← defaulted [] (asList ConstDecl.ofJson) (slot values 3) }

/-- Reads the text of a manifest. -/
def Manifest.read (text : String) : Except Json.Fault Manifest := do
  Manifest.ofJson (← Json.read text)

end RpcSchema
