/-
  RpcSchema.Package.Basic
  ───────────────────────
  **A loaded package, and the draft it is built from.**

  A draft declares named types first and defines them later, so that
  declarations may refer to themselves and to each other.  Freezing it
  checks that no name was declared twice and follows every chain of named
  types `type B A` down to a shape; a chain that never ends, or that ends
  in a type without a shape, is an error.

  Main statements: `lookup_declare_self`, `finish_of_repeated`.
-/
import RpcSchema.Native.MethodSet
import RpcSchema.Native.Spelling
import RpcSchema.Package.LoadError

namespace RpcSchema

/-! ## §1. Packages. -/

/-- A typed constant of a package, with the exact text of its value. -/
structure Constant where
  name : String
  type : NativeId
  literal : String
  deriving DecidableEq, Repr

/-- The symbol table of one package. -/
structure Package where
  /-- The full path, such as `github.com/acme/chat`. -/
  path : String
  /-- The short name, such as `chat`. -/
  name : String
  types : Universe
  /-- The declared types with their names, in declaration order. -/
  declared : List (String × NativeId)
  constants : List Constant
  deriving DecidableEq, Repr

namespace Package

/-- The declared type of a name. -/
def lookup? (p : Package) (name : String) : Option NativeId :=
  p.declared.lookup name

/-- The declared types with their declarations, in declaration order. -/
def namedTypes (p : Package) : List (NativeId × NamedType) :=
  p.declared.filterMap fun (_, id) => (p.types.named? id).map (id, ·)

/-- The exported methods of a named type, or of pointers to one, in declaration order. -/
def exportedMethods (p : Package) (id : NativeId) : List Method :=
  match p.types.named? (p.types.deref id) with
  | some decl => decl.methods.filter (·.isExported)
  | none => []

/-- A named type of this very package. -/
def isLocal (p : Package) (id : NativeId) : Bool :=
  match p.types.named? id with
  | some decl => decl.package = some p.path
  | none => false

end Package

/-! ## §2. Drafts. -/

/-- A package under construction. -/
structure Draft where
  path : String
  name : String
  types : Universe
  declared : List (String × NativeId)
  constants : List Constant
  /-- Types of other packages, by package and name. -/
  foreigns : List ((String × String) × NativeId)
  /-- Names declared again, in the order of their repetition. -/
  repeated : List String
  deriving DecidableEq, Repr

namespace Draft

/-- A draft without declarations; the short name is the last segment of the path unless one is
given. -/
def start (path : String) (name? : Option String) : Draft where
  path := path
  name := name?.getD (lastSegment path)
  types := .predeclared
  declared := []
  constants := []
  foreigns := []
  repeated := []

/-- The declared type of a name. -/
def lookup? (d : Draft) (name : String) : Option NativeId :=
  d.declared.lookup name

/-- Runs a construction on the universe of the draft. -/
def build (d : Draft) (f : Universe → NativeId × Universe) : NativeId × Draft :=
  let (id, u) := f d.types
  (id, { d with types := u })

/-- Declares a named type.  A name that is declared already keeps its type, and is remembered
as repeated. -/
def declare (d : Draft) (name : String) : NativeId × Draft :=
  match d.lookup? name with
  | some id => (id, { d with repeated := d.repeated ++ [name] })
  | none =>
    let (id, u) := d.types.declareNamed name (some d.path)
    (id, { d with types := u, declared := d.declared ++ [(name, id)] })

/-- Gives a named type its underlying type, which may itself be a named one. -/
def define (d : Draft) (id underlying : NativeId) : Draft :=
  { d with types := d.types.setUnderlying id underlying }

/-- Makes a named type a struct. -/
def defineStruct (d : Draft) (id : NativeId) (fields : List Field) : Draft :=
  let (shape, d) := d.build (·.struct fields)
  d.define id shape

/-- Makes a named type an interface. -/
def defineInterface (d : Draft) (id : NativeId) (shape : InterfaceShape) : Draft :=
  let (shape, d) := d.build (·.interface shape)
  d.define id shape

/-- Adds a method to a declared type. -/
def addMethod (d : Draft) (id : NativeId) (method : Method) : Draft :=
  { d with types := d.types.addMethod id method }

/-- Adds a constant behind those that are there. -/
def addConstant (d : Draft) (name : String) (type : NativeId) (literal : String) : Draft :=
  { d with constants := d.constants ++ [⟨name, type, literal⟩] }

/-- A named type of another package.  Its declaration is not visible here, so it is an opaque
struct without fields. -/
def foreign (d : Draft) (package name : String) : NativeId × Draft :=
  match d.foreigns.lookup (package, name) with
  | some id => (id, d)
  | none =>
    let (id, u) := d.types.declareNamed name (some package)
    let (opaqueShape, u) := u.struct []
    let u := u.setUnderlying id opaqueShape
    (id, { d with types := u, foreigns := d.foreigns ++ [((package, name), id)] })

/-! ## §3. Freezing. -/

/-- The name of a named type. -/
def nameOf (u : Universe) (id : NativeId) : String :=
  ((u.named? id).map (·.name)).getD ""

/-- Follows the underlying types from `id`, at most `n` of them, to the first that is not named.
A chain longer than that is a cycle, and is reported under the name it was entered by. -/
def chainEnd (u : Universe) (entered : NativeId) : Nat → NativeId → Except LoadError NativeId
  | 0, _ => .error (.undefined (nameOf u entered))
  | n + 1, id =>
    match u.named? id with
    | none => .ok id
    | some decl =>
      if decl.underlying = .undefined then .error (.undefined decl.name)
      else
        match u.named? decl.underlying with
        | none => .ok decl.underlying
        | some _ => chainEnd u entered n decl.underlying

/-- Replaces the underlying type of each listed type by the end of its chain, in turn. -/
def collapse (hops : Nat) (u : Universe) : List NativeId → Except LoadError Universe
  | [] => .ok u
  | id :: rest =>
    match chainEnd u id hops id with
    | .error e => .error e
    | .ok shape => collapse hops (u.setUnderlying id shape) rest

/-- Checks the draft and freezes it. -/
def finish (d : Draft) : Except LoadError Package :=
  match d.repeated with
  | name :: _ => .error (.duplicateType name)
  | [] =>
    match collapse (d.declared.length + 1) d.types (d.declared.map (·.2)) with
    | .error e => .error e
    | .ok u => .ok ⟨d.path, d.name, u, d.declared, d.constants⟩

/-! ## §4. Small facts. -/

/-- A declared name is found, whether it is declared now or was before. -/
theorem lookup_declare_self (d : Draft) (name : String) :
    (d.declare name).2.lookup? name = some (d.declare name).1 := by
  unfold declare
  split
  · rename_i id h
    exact h
  · rename_i h
    simp only [lookup?] at h ⊢
    simp [List.lookup_append, h]

/-- A repeated declaration is reported before anything else is looked at. -/
theorem finish_of_repeated {d : Draft} {name : String} {rest : List String}
    (h : d.repeated = name :: rest) : d.finish = .error (.duplicateType name) := by
  simp [finish, h]

end Draft

end RpcSchema
