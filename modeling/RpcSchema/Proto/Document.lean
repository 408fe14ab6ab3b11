/-
  RpcSchema.Proto.Document
  ────────────────────────
  **What a schema says, before it is laid out.**

  A document names the service with its methods and holds a block for
  every definition that the methods reach and for every wrapper that their
  fields need, in the order of the names.

  An interface is a message that holds exactly one of its implementations;
  one without implementations holds an unconstrained value.
-/
import RpcSchema.Proto.TypeName
import RpcSchema.Schema.Basic
import RpcSchema.Text.Letter

namespace RpcSchema

/-! ## §1. Documents. -/

/-- A field as it is written; its tag is its position. -/
structure ProtoField where
  type : FieldType
  name : String
  deriving DecidableEq, Repr

/-- What stands between the braces of a block. -/
inductive BlockBody where
  | message (fields : List ProtoField)
  | enum (members : List EnumMember)
  /-- A message that holds exactly one of the fields. -/
  | oneof (fields : List ProtoField)
  deriving DecidableEq, Repr

/-- A definition or a wrapper, as a block of the schema text. -/
structure Block where
  name : String
  body : BlockBody
  deriving DecidableEq, Repr

/-- A method of the service, with the messages it takes and gives. -/
structure Rpc where
  name : String
  request : TypeName
  response : TypeName
  deriving DecidableEq, Repr

/-- What a schema text says, before it is laid out in lines. -/
structure Document where
  package : Option String
  options : Options
  service : String
  methods : List Rpc
  blocks : List Block
  deriving DecidableEq

/-! ## §2. The blocks of a pool. -/

namespace Pool

/-- A field of a message. -/
def messageField (p : Pool) (f : MessageField) : ProtoField :=
  ⟨p.fieldType f.type, f.name⟩

/-- The field that stands for an implementation of an interface. -/
def implementationField (p : Pool) (id : EntryId) : ProtoField :=
  ⟨.plain (p.elementName id), Text.snakeCase (p.elementName id).text⟩

/-- The body of a definition.  An interface that nothing implements has a field for any value. -/
def definitionBody (p : Pool) : Definition → BlockBody
  | .message _ fields => .message (fields.map p.messageField)
  | .enum _ members => .enum members
  | .interface _ [] => .message [⟨.plain .any, "value"⟩]
  | .interface _ implementations => .oneof (implementations.map p.implementationField)

/-- The block of a definition. -/
def definitionBlock (p : Pool) (d : Definition) : Block :=
  ⟨d.name, p.definitionBody d⟩

/-- The block behind an entry, if it is a definition. -/
def entryBlock? (p : Pool) (id : EntryId) : Option Block :=
  match p.entry id with
  | .definition d => some (p.definitionBlock d)
  | _ => none

/-- The block of a wrapper. -/
def wrapperBlock (p : Pool) (w : Wrapper) : Block :=
  ⟨w.name, .message [⟨p.fieldType w.container, p.wrapperField w⟩]⟩

/-- The blocks of some definitions and of the wrappers they need, by name. -/
def blocks (p : Pool) (definitions : List EntryId) : List Block :=
  Sequence.sortBy (·.name)
    (definitions.filterMap p.entryBlock? ++ (p.wrappers definitions).map p.wrapperBlock)

end Pool

/-! ## §3. The document of a schema. -/

/-- A method as it is declared in the service. -/
def Pool.rpc (p : Pool) (m : RpcMethod) : Rpc :=
  ⟨m.name, p.elementName m.request, p.elementName m.response⟩

/-- The document of a schema. -/
def Schema.document (s : Schema) : Document where
  package := s.package
  options := s.options
  service := s.service
  methods := s.methods.map s.pool.rpc
  blocks := s.pool.blocks s.definitions

end RpcSchema
