/-
  RpcSchema.Pool.Entry
  ────────────────────
  **The vocabulary of schema types.**

  A schema type is an entry of a pool and is named by its `EntryId`; the
  scalars and the unconstrained value have fixed ids.  Messages, enums and
  interfaces are definitions: each is emitted as a block of its own.  A
  reference stands for the conversion of a native type that was under
  construction when it was referred to.
-/
import RpcSchema.Native.Kind

namespace RpcSchema

/-! ## §1. Scalars. -/

/-- The scalar types of schema text. -/
inductive Scalar where
  | string | bool | int32 | uint32 | int64 | uint64 | float | double
  deriving DecidableEq, Repr

namespace Scalar

/-- All scalars, in the order of their ids. -/
def all : List Scalar :=
  [.string, .bool, .int32, .uint32, .int64, .uint64, .float, .double]

/-- The spelling in schema text. -/
def name : Scalar → String
  | .string => "string"
  | .bool => "bool"
  | .int32 => "int32"
  | .uint32 => "uint32"
  | .int64 => "int64"
  | .uint64 => "uint64"
  | .float => "float"
  | .double => "double"

/-- The spelling inside the name of a wrapper. -/
def label : Scalar → String
  | .string => "String"
  | .bool => "Bool"
  | .int32 => "Int32"
  | .uint32 => "Uint32"
  | .int64 => "Int64"
  | .uint64 => "Uint64"
  | .float => "Float"
  | .double => "Double"

/-- The scalars that cannot be map keys. -/
def isFloat : Scalar → Bool
  | .float | .double => true
  | _ => false

/-- The position of a scalar among all scalars. -/
def index (s : Scalar) : Nat :=
  all.idxOf s

/-- A scalar stands in the list at its index. -/
theorem getElem?_all_index (s : Scalar) : all[s.index]? = some s := by
  cases s <;> decide

end Scalar

/-! ## §2. Ids. -/

/-- The handle of a schema type: an entry of a pool, or `absent`. -/
inductive EntryId where
  | absent
  | entry (index : Nat)
  deriving DecidableEq, Repr

namespace EntryId

/-- The number that stands for `absent`. -/
def absentNumber : Nat := 4294967295

/-- The id a number stands for. -/
def ofNumber (n : Nat) : EntryId :=
  if n = absentNumber then .absent else .entry n

/-- The number that stands for an id. -/
def number : EntryId → Nat
  | .absent => absentNumber
  | .entry i => i

/-- The fixed id of a scalar. -/
def scalar (s : Scalar) : EntryId :=
  .entry s.index

/-- The unconstrained value. -/
def any : EntryId := .entry 8

/-- The scalar an id stands for in every pool. -/
def scalar? : EntryId → Option Scalar
  | .absent => none
  | .entry i => Scalar.all[i]?

/-- The id of a scalar tells the scalar. -/
theorem scalar?_scalar (s : Scalar) : scalar? (scalar s) = some s :=
  s.getElem?_all_index

/-- Scalars have different ids. -/
theorem scalar_injective {a b : Scalar} (h : scalar a = scalar b) : a = b := by
  have := congrArg scalar? h
  simpa [scalar?_scalar] using this

/-- The unconstrained value is no scalar. -/
theorem scalar_ne_any (s : Scalar) : scalar s ≠ any := by
  cases s <;> decide

end EntryId

/-! ## §3. Definitions. -/

/-- A field of a message; its tag is its position. -/
structure MessageField where
  name : String
  type : EntryId
  deriving DecidableEq, Repr

/-- A member of an enumeration; `literal` is the text of its constant when that is not an
ordinal. -/
structure EnumMember where
  name : String
  ordinal : Int
  literal : Option String
  deriving DecidableEq, Repr

/-- A schema type that is emitted as a block of its own. -/
inductive Definition where
  | message (name : String) (fields : List MessageField)
  | enum (name : String) (members : List EnumMember)
  | interface (name : String) (implementations : List EntryId)
  deriving DecidableEq, Repr

/-- The name of a definition, which is that of its block. -/
def Definition.name : Definition → String
  | .message name _ => name
  | .enum name _ => name
  | .interface name _ => name

/-- The types a definition is made of, in source order. -/
def Definition.parts : Definition → List EntryId
  | .message _ fields => fields.map (·.type)
  | .enum _ _ => []
  | .interface _ implementations => implementations

/-! ## §4. Entries. -/

/-- A schema type. -/
inductive Entry where
  | scalar (s : Scalar)
  /-- A value that may be missing. -/
  | optional (of : EntryId)
  | array (of : EntryId)
  | map (key value : EntryId)
  /-- An unconstrained value. -/
  | any
  | definition (d : Definition)
  /-- Stands for the conversion of a native type. -/
  | reference (native : NativeId)
  deriving DecidableEq, Repr

namespace Entry

/-- The name of a definition. -/
def name? : Entry → Option String
  | .definition d => some d.name
  | _ => none

/-- An entry with a block of its own in the schema text. -/
def isDefinition : Entry → Bool
  | .definition _ => true
  | _ => false

/-- An entry that stands for the result of a conversion. -/
def isReference : Entry → Bool
  | .reference _ => true
  | _ => false

/-- The types an entry is made of, in source order. -/
def parts : Entry → List EntryId
  | .optional of => [of]
  | .array of => [of]
  | .map key value => [key, value]
  | .definition d => d.parts
  | .scalar _ | .any | .reference _ => []

/-- Containers and references are interned; definitions are not. -/
def isInterned : Entry → Bool
  | .optional _ | .array _ | .map _ _ | .reference _ => true
  | .scalar _ | .any | .definition _ => false

/-- A definition is told by its constructor. -/
theorem isDefinition_iff {e : Entry} : e.isDefinition = true ↔ ∃ d, e = .definition d := by
  cases e <;> simp [isDefinition]

end Entry

end RpcSchema
