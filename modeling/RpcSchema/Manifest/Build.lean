/-
  RpcSchema.Manifest.Build
  ────────────────────────
  **From a manifest to a package.**

  Every type is declared before any is defined, so that definitions may
  refer forward.  Then each type, in manifest order, receives its
  underlying type and its methods, then come the constants, and last the
  draft is frozen.  The first fault met on this walk is the answer.

  A name in a type expression is a basic name, `error`, `any` or a
  declared type, in that order.  A name qualified by the package's own
  short name is a declared type as well; any other qualifier leads to
  another package.
-/
import RpcSchema.Manifest.Basic
import RpcSchema.Package.Basic
import RpcSchema.TypeExpr.Reader

namespace RpcSchema

/-- A step of the walk: it extends the draft, or fails. -/
abbrev Building := StateT Draft (Except LoadError)

namespace Building

/-! ## §1. Type expressions. -/

/-- Adds a shape to the universe of the draft. -/
def shape (f : Universe → NativeId × Universe) : Building NativeId :=
  modifyGet (·.build f)

/-- A declared type, reported under the name it is written with. -/
def declared (name written : String) : Building NativeId := do
  match (← get).lookup? name with
  | some id => return id
  | none => throw (.unknownType written)

/-- The type an expression stands for; `source` is the text it was read from. -/
def resolve (source : String) : TypeExpr → Building NativeId
  -- names of basic types come before any declaration
  | .unqualified name =>
    match BasicKind.ofName? name with
    | some kind => return .basic kind
    | none =>
      if name = "error" then return .error
      else if name = "any" then return .emptyInterface
      else declared name name
  | .qualified package name => do
    if package = "unsafe" ∧ name = "Pointer" then return .basic .unsafePointer
    -- the package may name its own types in full
    else if package = (← get).name then declared name (package ++ "." ++ name)
    else modifyGet (·.foreign package name)
  | .pointer elem => do
    let elem ← resolve source elem
    shape (·.pointer elem)
  | .slice elem => do
    let elem ← resolve source elem
    shape (·.slice elem)
  | .map key value => do
    let key ← resolve source key
    let value ← resolve source value
    shape (·.map key value)
  | .emptyInterface => return .emptyInterface
  | .variadic _ => throw (.typeExpr source 0 .variadicOutsideParameters)

/-- Reads a type expression. -/
def parse (source : String) : Building TypeExpr :=
  match TypeExpr.parse source with
  | .ok e => return e
  | .error (fault, offset) => throw (.typeExpr source offset fault)

/-- The type a text stands for. -/
def resolveText (source : String) : Building NativeId := do
  resolve source (← parse source)

/-! ## §2. Declarations. -/

/-- A struct field; one without a name is embedded, and named after its type. -/
def field (decl : VarDecl) : Building Field := do
  let e ← parse decl.type
  let type ← resolve decl.type e
  match decl.name with
  | some name => return ⟨name, type, false⟩
  -- an embedded field is called by the type it embeds
  | none =>
    match e.baseName? with
    | some name => return ⟨name, type, true⟩
    | none => throw (.typeExpr decl.type 0 .embeddedShape)

/-- The parameters of a method, and whether the last one is variadic. -/
def params (method : String) : List VarDecl → Building (List Var × Bool)
  | [] => return ([], false)
  | decl :: rest => do
    match ← parse decl.type with
    | .variadic elem =>
      -- only the last parameter may repeat
      if rest.isEmpty then
        let elem ← resolve decl.type elem
        let type ← shape (·.slice elem)
        return ([⟨decl.name, type⟩], true)
      else throw (.misplacedVariadic method decl.type)
    | e =>
      let type ← resolve decl.type e
      let (vars, variadic) ← params method rest
      return (⟨decl.name, type⟩ :: vars, variadic)

/-- A result of a method. -/
def result (decl : VarDecl) : Building Var :=
  return ⟨decl.name, ← resolveText decl.type⟩

/-- A declared method with its types. -/
def method (decl : MethodDecl) : Building Method := do
  let (params, variadic) ← params decl.name decl.params
  let results ← decl.results.mapM result
  return ⟨decl.name, params, results, variadic⟩

/-- Gives a declared type what its underlying declaration says. -/
def underlying (id : NativeId) : UnderlyingDecl → Building Unit
  | .struct fields => do
    let fields ← fields.mapM field
    modify (·.defineStruct id fields)
  | .interface methods embeds => do
    let methods ← methods.mapM method
    let embedded ← embeds.mapM resolveText
    modify (·.defineInterface id ⟨methods, embedded⟩)
  | .type expr => do
    let target ← resolveText expr
    modify (·.define id target)

/-- Defines one declared type. -/
def type (id : NativeId) (decl : TypeDecl) : Building Unit := do
  underlying id decl.underlying
  decl.methods.forM fun m => do
    let m ← method m
    modify (·.addMethod id m)

/-- Adds a declared constant, once its type is read. -/
def constant (decl : ConstDecl) : Building Unit := do
  let type ← resolveText decl.type
  modify (·.addConstant decl.name type decl.literal)

/-- The whole walk. -/
def manifest (m : Manifest) : Building Unit := do
  let ids ← m.types.mapM fun decl => (modifyGet (·.declare decl.name) : Building NativeId)
  (ids.zip m.types).forM fun (id, decl) => type id decl
  m.constants.forM constant

end Building

/-! ## §3. Packages. -/

/-- The package a manifest describes. -/
def Manifest.build (m : Manifest) : Except LoadError Package :=
  match (Building.manifest m).run (Draft.start m.path m.name) with
  | .error e => .error e
  | .ok (_, draft) => draft.finish

/-- The package that the text of a manifest describes; `path` is the file named in errors. -/
def Package.parse (path text : String) : Except LoadError Package :=
  match Manifest.read text with
  | .error fault => .error (.malformed path fault)
  | .ok m => m.build

/-- As `Package.parse`, for a text that has to describe the package `expected`. -/
def Package.parseAs (path text expected : String) : Except LoadError Package :=
  match Manifest.read text with
  | .error fault => .error (.malformed path fault)
  | .ok m =>
    if m.path = expected then m.build else .error (.packageMismatch expected m.path)

end RpcSchema
