/-
  RpcSchema.Conversion.Convert
  ────────────────────────────
  **From native types to schema types.**

      *T                          the conversion of T
      []T                         a list
      map[K]V                     a map, if K converts to a key
      basic                       its scalar
      empty interface             the unconstrained value
      error                       an optional string
      named struct                a message of its exported fields
      named interface             an interface with its implementations
      named basic with constants  an enum
      named container             the conversion of its shape; a message
                                  with one field if it holds itself
      anything else               an error

  A native type is converted once per pool.  While its conversion is under
  way it has a slot in progress, and asking for it again yields a
  reference; a conversion that fails gives its slot up.  Since every
  conversion under way has a slot of its own, the nesting is bounded by
  the number of native types.

  The walk is written over `recur`, the conversion of the types met on the
  way, and `convertWithin` ties the knot with a budget of levels.

  Nothing is logged here.  A log of finished conversions would show each of
  them with `Pool.display`, and the text of a container that does not
  unfold finitely has no end; what is said about conversions is said of
  runs in which that text is not asked for.
-/
import RpcSchema.Conversion.Enumeration
import RpcSchema.Conversion.Error
import RpcSchema.Conversion.Implementation
import RpcSchema.Conversion.Scalar
import RpcSchema.Pool.Resolve

namespace RpcSchema

/-- What a conversion reads: a package, its enumerations, and the names of the structs that are
emitted without fields. -/
structure Source where
  package : Package
  enums : EnumTable
  fieldless : List String
  deriving DecidableEq, Repr

/-- A step of a conversion: it changes the pool, also when it fails. -/
abbrev Conversion := ExceptT CompileError (StateM Pool)

namespace Conversion

/-! ## §1. Steps on the pool. -/

/-- Adds to the pool. -/
def add (f : Pool → EntryId × Pool) : Conversion EntryId :=
  ExceptT.mk fun p => (.ok (f p).1, (f p).2)

/-- Reads the pool. -/
def read {α : Type} (f : Pool → α) : Conversion α :=
  ExceptT.mk fun p => (.ok (f p), p)

/-- Says where a failure was met. -/
def within {α : Type} (place : Place) (x : Conversion α) : Conversion α :=
  ExceptT.mk fun p =>
    match x.run p with
    | (.ok a, q) => (.ok a, q)
    | (.error e, q) => (.error (e.within place), q)

/-- Runs the conversion of a native type in a slot of its own: the slot is in progress until it
ends, then done, or given up.  The type that it ends with is not shown to any log. -/
def inSlot (n : NativeId) (x : Conversion EntryId) : Conversion EntryId :=
  ExceptT.mk fun p =>
    match x.run (p.begin n) with
    | (.ok id, q) => (.ok id, q.finish n id)
    | (.error e, q) => (.error e, q.abandon n)

/-- The conversion of a native type that may be known already. -/
def memoized (n : NativeId) (x : Conversion EntryId) : Conversion EntryId :=
  ExceptT.mk fun p =>
    match p.lookup n with
    | (some id, q) => (.ok id, q)
    | (none, q) => (inSlot n x).run q

end Conversion

namespace Source

open Conversion

variable (s : Source)

/-- The native types of the package. -/
def types : Universe := s.package.types

/-! ## §2. Errors. -/

/-- A native type whose shape cannot be converted. -/
def unsupported {α : Type} (n : NativeId) (kind : NativeKind) : Conversion α :=
  throw (.unsupportedShape (s.types.spell n) kind.shape)

/-- The scalar of a basic kind, met as the type `n`. -/
def scalar (n : NativeId) (kind : BasicKind) : Conversion EntryId :=
  match kind.scalar? with
  | some scalar => return .scalar scalar
  | none => throw (.unsupportedScalar (s.types.spell n) kind.name)

/-! ## §3. Shapes. -/

/-- Scalars that are no floats and enums can be map keys. -/
def isKey : Entry → Bool
  | .scalar scalar => !scalar.isFloat
  | .definition (.enum _ _) => true
  | _ => false

/-- The map `n`; its key is checked once both types are converted. -/
def map (recur : NativeId → Conversion EntryId) (n key value : NativeId) :
    Conversion EntryId := do
  let key ← recur key
  let value ← recur value
  if ← read fun p => isKey (p.resolved key) then add (·.map key value)
  else throw (.unsupportedMapKey (← read (·.display key)) (s.types.spell n))

/-- The exported fields of a struct, in declaration order. -/
def fields (recur : NativeId → Conversion EntryId) (owner : String) (fields : List Field) :
    Conversion (List MessageField) :=
  (fields.filter (·.isExported)).mapM fun f => do
    return ⟨f.name, ← (recur f.type).within (.field f.name owner)⟩

/-- The implementations of an interface. -/
def implementations (recur : NativeId → Conversion EntryId) (n : NativeId) (name : String) :
    Conversion (List EntryId) :=
  (s.package.implementations n).mapM fun implementation =>
    (recur implementation).within (.implementation (s.types.spell implementation) name)

/-- Closes the conversion `id` of the shape of a named type `n`.  A container that holds `n`
itself becomes a message with one field, so that the cycle passes through a definition; a
pointer to itself has no finite shape. -/
def close (n : NativeId) (decl : NamedType) (id : EntryId) : Conversion EntryId := do
  let p ← read (·)
  -- straight back at the type, with no container in between
  if p.entry id = .reference n then s.unsupported n (s.types.kind decl.underlying)
  else if p.refersTo id n then
    let field := match p.entry id with
      | .map _ _ => "entries"
      | _ => "values"
    add (·.message decl.name [⟨field, id⟩])
  else return id

/-- The named type `n`. -/
def named (recur : NativeId → Conversion EntryId) (n : NativeId) (decl : NamedType) :
    Conversion EntryId :=
  if s.types.isError n then add (·.optional (.scalar .string))
  else
    match s.types.kind decl.underlying with
    | .struct fs => do
      -- a fieldless struct leaves the types of its fields unconverted
      let fs ← if s.fieldless.contains decl.name then pure [] else fields recur decl.name fs
      add (·.message decl.name fs)
    | .interface _ =>
      -- every type implements an interface without methods
      if (s.types.methodSet n).isEmpty then return .any
      else do
        let ids ← s.implementations recur n decl.name
        add (·.define (.interface decl.name ids))
    | .basic kind =>
      match s.enums.lookup n with
      | some e => add (·.define e.definition)
      | none => s.scalar n kind
    | .pointer _ | .slice _ | .map _ _ => do
      let id ← recur decl.underlying
      s.close n decl id
    | kind => s.unsupported n kind

/-- The native type `n` of a given kind. -/
def shape (recur : NativeId → Conversion EntryId) (n : NativeId) :
    NativeKind → Conversion EntryId
  | .basic kind => s.scalar n kind
  -- a pointer is what it points to
  | .pointer elem => recur elem
  | .slice elem => do
    let elem ← recur elem
    add (·.array elem)
  | .map key value => s.map recur n key value
  | .named decl => s.named recur n decl
  | .interface shape =>
    if (s.types.methodSet n).isEmpty then return .any
    else s.unsupported n (.interface shape)
  | kind => s.unsupported n kind

/-! ## §4. The conversion. -/

/-- Converts a native type, nesting at most `n` levels deep.  Basic kinds need no slot. -/
def convertWithin : Nat → NativeId → Conversion EntryId
  | 0, _ => throw .tooDeep
  | n + 1, id =>
    match s.types.kind id with
    | .basic kind => s.scalar id kind
    | kind => memoized id (s.shape (convertWithin n) id kind)

/-- Levels that no conversion exceeds: one per native type, and one for what is met last. -/
def budget : Nat := s.types.size + 2

/-- Converts a native type, or finds its earlier conversion. -/
def convert (id : NativeId) : Conversion EntryId :=
  s.convertWithin s.budget id

end Source

end RpcSchema
