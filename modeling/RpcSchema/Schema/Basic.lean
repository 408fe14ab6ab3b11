/-
  RpcSchema.Schema.Basic
  ──────────────────────
  **A service schema: the methods of a service, and the pool their types
  live in.**
-/
import RpcSchema.Pool.Reach
import RpcSchema.Schema.Options

namespace RpcSchema

/-- A method of the service, with its request and its response message. -/
structure RpcMethod where
  name : String
  request : EntryId
  response : EntryId
  deriving DecidableEq, Repr

/-- A service with the types its methods mention, and what is said about the file. -/
structure Schema where
  service : String
  /-- The name of the package statement, if there is one. -/
  package : Option String
  options : Options
  /-- The methods in the order they are emitted. -/
  methods : List RpcMethod
  pool : Pool
  deriving DecidableEq

namespace Schema

/-- The requests and responses of the methods. -/
def roots (s : Schema) : List EntryId :=
  s.methods.flatMap fun m => [m.request, m.response]

/-- The definitions that the methods reach, in the order of their discovery. -/
def definitions (s : Schema) : List EntryId :=
  s.pool.reachable s.roots

end Schema

end RpcSchema
