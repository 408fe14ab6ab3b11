/-
  RpcSchema.Conversion.Implementation
  ───────────────────────────────────
  **Which structs implement an interface.**

  An exported declared struct implements an interface when it declares,
  for every method of the interface's method set, a method of that name
  with an identical signature.  An interface that asks for nothing has no
  implementations.
-/
import RpcSchema.Package.Basic

namespace RpcSchema

/-- Whether the declared methods cover the required ones. -/
def satisfies (declared required : List Method) : Bool :=
  required.all fun wanted =>
    declared.any fun m => m.name = wanted.name && m.signature.identical wanted.signature

/-- A struct; of the declared types only structs implement interfaces. -/
def NativeKind.isStruct : NativeKind → Bool
  | .struct _ => true
  | _ => false

namespace Package

/-- Whether a declared type is an exported struct with the required methods. -/
def isImplementation (p : Package) (required : List Method) (decl : NamedType) : Bool :=
  Text.isExported decl.name && (p.types.kind decl.underlying).isStruct
    && satisfies decl.methods required

/-- The declared types that implement an interface, by name. -/
def implementations (p : Package) (interface : NativeId) : List NativeId :=
  let required := p.types.methodSet interface
  if required.isEmpty then []
  else
    let found := p.namedTypes.filter fun (_, decl) => p.isImplementation required decl
    (Sequence.sortBy (fun (_, decl) => decl.name) found).map (·.1)

/-- An interface that requires no method is implemented by nothing. -/
theorem implementations_of_empty {p : Package} {interface : NativeId}
    (h : p.types.methodSet interface = []) : p.implementations interface = [] := by
  simp [implementations, h]

end Package

end RpcSchema
