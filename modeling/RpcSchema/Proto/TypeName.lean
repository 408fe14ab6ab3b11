/-
  RpcSchema.Proto.TypeName
  ────────────────────────
  **Types as they are named in schema text.**

  An element position (a list element, a map value, an argument or result
  of a method) holds the name of a scalar, of the unconstrained value, or
  of a block.  The type of a message field may carry a label besides, or
  be a map.

  A list or map in an element position is named by its wrapper.  A list or
  map that may be missing is written without a marker, because a container
  has a presence of its own.
-/
import RpcSchema.Pool.Wrapper

namespace RpcSchema

/-! ## §1. Names. -/

/-- A type in an element position. -/
inductive TypeName where
  | scalar (s : Scalar)
  /-- The unconstrained value. -/
  | any
  /-- A block of the schema. -/
  | block (name : String)
  deriving DecidableEq, Repr

/-- The spelling of the unconstrained value. -/
def anyText : String := "google.protobuf.Any"

/-- How a type is written in an element position. -/
def TypeName.text : TypeName → String
  | .scalar s => s.name
  | .any => anyText
  | .block name => name

/-- The type of a message field. -/
inductive FieldType where
  | plain (type : TypeName)
  | optional (type : TypeName)
  | repeated (type : TypeName)
  | map (key value : TypeName)
  deriving DecidableEq, Repr

/-- How the type of a field is written, with its label. -/
def FieldType.text : FieldType → String
  | .plain type => type.text
  | .optional type => "optional " ++ type.text
  | .repeated type => "repeated " ++ type.text
  | .map key value => "map<" ++ key.text ++ ", " ++ value.text ++ ">"

namespace Pool

/-! ## §2. The names of the entries of a pool. -/

/-- The name of a type in an element position. -/
def elementName (p : Pool) (id : EntryId) : TypeName :=
  let id := p.element id
  match p.entry id with
  | .scalar s => .scalar s
  | .array _ | .map _ _ => .block (p.label id)
  | .definition d => .block d.name
  | .any | .optional _ | .reference _ => .any

/-- The name of a map key; an enum is keyed by its ordinals. -/
def keyName (p : Pool) (id : EntryId) : TypeName :=
  match p.resolved id with
  | .definition (.enum _ _) => .scalar .int32
  | _ => p.elementName id

/-- The field type of a list or map. -/
def containerType? (p : Pool) : Entry → Option FieldType
  | .array of => some (.repeated (p.elementName of))
  | .map key value => some (.map (p.keyName key) (p.elementName value))
  | _ => none

/-- The type of a message field. -/
def fieldType (p : Pool) (id : EntryId) : FieldType :=
  match p.resolved id with
  | .optional of =>
    (p.containerType? (p.entry (p.element of))).getD (.optional (p.elementName of))
  | e => (p.containerType? e).getD (.plain (p.elementName id))

/-- Containers are the entries with a type of their own for fields. -/
theorem isSome_containerType? (p : Pool) (e : Entry) :
    (p.containerType? e).isSome = isContainerEntry e := by
  cases e <;> rfl

end Pool

end RpcSchema
