/-
  RpcSchema.Native.Kind
  ─────────────────────
  **Native types: what a package declares.**

  A native type is one entry of a universe and is named by its
  `NativeId`.  The basic kinds, the `error` interface and the empty
  interface have fixed ids, so they can be named without a universe at
  hand.  A named type is nominal — each declaration is an entry of its own
  — while every other shape stands once per universe.

  Two signatures are identical when they agree in everything but the names
  of parameters and results.
-/
import RpcSchema.Text.Letter

namespace RpcSchema

/-! ## §1. Basic kinds. -/

/-- The predeclared kinds that are not composite. -/
inductive BasicKind where
  | bool | string
  | int | int8 | int16 | int32 | int64
  | uint | uint8 | uint16 | uint32 | uint64 | uintptr
  | float32 | float64 | complex64 | complex128 | unsafePointer
  deriving DecidableEq, Repr

namespace BasicKind

/-- All basic kinds, in the order of their ids. -/
def all : List BasicKind :=
  [.bool, .string, .int, .int8, .int16, .int32, .int64, .uint, .uint8, .uint16, .uint32,
    .uint64, .uintptr, .float32, .float64, .complex64, .complex128, .unsafePointer]

/-- The spelling of a kind in a type expression. -/
def name : BasicKind → String
  | .bool => "bool"
  | .string => "string"
  | .int => "int"
  | .int8 => "int8"
  | .int16 => "int16"
  | .int32 => "int32"
  | .int64 => "int64"
  | .uint => "uint"
  | .uint8 => "uint8"
  | .uint16 => "uint16"
  | .uint32 => "uint32"
  | .uint64 => "uint64"
  | .uintptr => "uintptr"
  | .float32 => "float32"
  | .float64 => "float64"
  | .complex64 => "complex64"
  | .complex128 => "complex128"
  | .unsafePointer => "unsafe.Pointer"

/-- The position of a kind among all kinds. -/
def index (kind : BasicKind) : Nat :=
  all.idxOf kind

/-- The kind of a spelling; `byte` and `rune` are second spellings. -/
def ofName? (name : String) : Option BasicKind :=
  if name = "byte" then some .uint8
  else if name = "rune" then some .int32
  else all.find? (·.name = name)

/-- No basic kind is missing in the list. -/
theorem mem_all (kind : BasicKind) : kind ∈ all := by
  cases kind <;> decide

/-- A basic kind stands in the list at its index. -/
theorem getElem?_all_index (kind : BasicKind) : all[kind.index]? = some kind := by
  cases kind <;> decide

/-- There are eighteen basic kinds. -/
theorem index_lt (kind : BasicKind) : kind.index < 18 := by
  cases kind <;> decide

/-- A basic kind is read back from its name. -/
theorem ofName?_name (kind : BasicKind) : ofName? kind.name = some kind := by
  cases kind <;> decide

end BasicKind

/-! ## §2. Ids. -/

/-- The handle of a native type: an entry of a universe, or `undefined`, which stands for the
shape a named type does not have yet. -/
inductive NativeId where
  | undefined
  | entry (index : Nat)
  deriving DecidableEq, Repr

namespace NativeId

/-- The number that stands for `undefined`. -/
def undefinedNumber : Nat := 4294967295

/-- The id a number stands for. -/
def ofNumber (n : Nat) : NativeId :=
  if n = undefinedNumber then .undefined else .entry n

/-- The number that stands for an id. -/
def number : NativeId → Nat
  | .undefined => undefinedNumber
  | .entry i => i

/-- The fixed id of a basic kind. -/
def basic (kind : BasicKind) : NativeId :=
  .entry kind.index

/-- The builtin `error` interface. -/
def error : NativeId := .entry 18

/-- The interface without methods. -/
def emptyInterface : NativeId := .entry 19

/-- The builtin entries that can be named without a universe. -/
def builtinCount : Nat := 20

/-- An id that can be named without a universe. -/
def isBuiltin : NativeId → Bool
  | .undefined => false
  | .entry i => i < builtinCount

/-- The basic kind an id stands for in every universe. -/
def basicKind? : NativeId → Option BasicKind
  | .undefined => none
  | .entry i => BasicKind.all[i]?

/-- The number of an id tells the id, but for the number that stands for none. -/
theorem ofNumber_number_of_ne {i : Nat} (h : i ≠ undefinedNumber) :
    ofNumber (number (.entry i)) = .entry i := by
  simp [number, ofNumber, h]

/-- The id of a basic kind tells the kind. -/
theorem basicKind?_basic (kind : BasicKind) : basicKind? (basic kind) = some kind :=
  kind.getElem?_all_index

/-- Basic kinds have different ids. -/
theorem basic_injective {a b : BasicKind} (h : basic a = basic b) : a = b := by
  have := congrArg basicKind? h
  simpa [basicKind?_basic] using this

end NativeId

/-! ## §3. Signatures. -/

/-- A parameter or a result; it may be unnamed. -/
structure Var where
  name : Option String
  type : NativeId
  deriving DecidableEq, Repr

/-- The signature of a method.  When `variadic` is set, the last parameter is the variadic one
and its type is the slice of the element type. -/
structure Signature where
  params : List Var
  results : List Var
  variadic : Bool
  deriving DecidableEq, Repr

/-- Agreement in everything but names. -/
def Signature.identical (a b : Signature) : Bool :=
  a.variadic = b.variadic
    && a.params.map (·.type) = b.params.map (·.type)
    && a.results.map (·.type) = b.results.map (·.type)

/-- A method of a named type or of an interface. -/
structure Method where
  name : String
  signature : Signature
  deriving DecidableEq, Repr

/-- A method that is visible outside its package. -/
def Method.isExported (m : Method) : Bool :=
  Text.isExported m.name

/-- Signatures are identical if they agree in their types and in being variadic; the names of
parameters and results do not matter. -/
theorem Signature.identical_iff {a b : Signature} :
    a.identical b = true ↔
      a.variadic = b.variadic ∧ a.params.map (·.type) = b.params.map (·.type)
        ∧ a.results.map (·.type) = b.results.map (·.type) := by
  simp [Signature.identical, and_assoc]

/-! ## §4. Types. -/

/-- The own methods and the embedded types of an interface. -/
structure InterfaceShape where
  methods : List Method
  embedded : List NativeId
  deriving DecidableEq, Repr

/-- The interface that asks for nothing. -/
def InterfaceShape.empty : InterfaceShape := ⟨[], []⟩

/-- A struct field; an embedded one is named after its type. -/
structure Field where
  name : String
  type : NativeId
  embedded : Bool
  deriving DecidableEq, Repr

/-- A field that is visible outside its package. -/
def Field.isExported (f : Field) : Bool :=
  Text.isExported f.name

/-- A named type.  A builtin one has no package; one without a shape yet has the underlying
type `undefined`. -/
structure NamedType where
  name : String
  package : Option String
  underlying : NativeId
  methods : List Method
  deriving DecidableEq, Repr

/-- A native type. -/
inductive NativeKind where
  | basic (kind : BasicKind)
  | named (decl : NamedType)
  | pointer (elem : NativeId)
  | slice (elem : NativeId)
  | map (key value : NativeId)
  | interface (shape : InterfaceShape)
  | struct (fields : List Field)
  | tuple (elems : List NativeId)
  deriving DecidableEq, Repr

/-- The coarse shape of a native type, as diagnostics name it. -/
inductive ShapeKind where
  | basic | named | pointer | slice | map | interface | struct | tuple
  deriving DecidableEq, Repr

/-- The wording of a shape. -/
def ShapeKind.name : ShapeKind → String
  | .basic => "basic"
  | .named => "named"
  | .pointer => "pointer"
  | .slice => "slice"
  | .map => "map"
  | .interface => "interface"
  | .struct => "struct"
  | .tuple => "tuple"

/-- The shape of a native type. -/
def NativeKind.shape : NativeKind → ShapeKind
  | .basic _ => .basic
  | .named _ => .named
  | .pointer _ => .pointer
  | .slice _ => .slice
  | .map _ _ => .map
  | .interface _ => .interface
  | .struct _ => .struct
  | .tuple _ => .tuple

/-- Everything but a named type is interned. -/
def NativeKind.isNamed : NativeKind → Bool
  | .named _ => true
  | _ => false

end RpcSchema
