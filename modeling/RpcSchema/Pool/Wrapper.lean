/-
  RpcSchema.Pool.Wrapper
  ──────────────────────
  **Wrapper messages for nested containers.**

  A list element or map value cannot itself be a list or map in schema
  text, so it is lifted into a message with one field:

      [][]string            becomes  repeated StringList
      map<string, []int32>  becomes  map<string, Int32List>

  An element position ignores references and optional markers.  A wrapper
  is named after its container; of several containers of one name the
  first stands for all, and what is nested in the others is not looked at.

  A list that holds itself has a name without end.  So that the functions
  here end on every pool, they descend by as many levels as the pool has
  entries, and one more.  A type whose containers unfold finitely is done
  with before (`Pool.Bounded.within`); of any other type the name is cut
  off there, and so is what is nested in it.
-/
import RpcSchema.Pool.Resolve
import RpcSchema.Sequence.Sorted

namespace RpcSchema.Pool

/-! ## §1. Element positions. -/

/-- Strips optional markers off a resolved entry, at most `n` of them. -/
def stripWithin (p : Pool) : Nat → EntryId → EntryId
  | 0, id => id
  | n + 1, id =>
    match p.entry id with
    | .optional of => p.stripWithin n (p.resolve of)
    | _ => id

/-- The entry that `id` stands for in an element position.  There are not as many optional markers
one behind another as the pool has entries, unless they go round in a cycle. -/
def element (p : Pool) (id : EntryId) : EntryId :=
  p.stripWithin (p.size + 1) (p.resolve id)

/-- A list or a map. -/
def isContainerEntry : Entry → Bool
  | .array _ | .map _ _ => true
  | _ => false

/-- Whether `id` is a list or a map in an element position. -/
def isContainer (p : Pool) (id : EntryId) : Bool :=
  isContainerEntry (p.entry (p.element id))

/-! ## §2. Names. -/

/-- The name of a type inside a wrapper name, unfolding at most `n` levels; what lies deeper is
left out of the name. -/
def labelWithin (p : Pool) : Nat → EntryId → String
  | 0, _ => ""
  | n + 1, id =>
    match p.entry (p.element id) with
    | .scalar s => s.label
    | .array of => p.labelWithin n of ++ "List"
    | .map key value => p.labelWithin n key ++ p.labelWithin n value ++ "Map"
    | .any | .reference _ => "Any"
    | .optional _ => ""
    | .definition d => d.name

/-- The name of a type inside a wrapper name.  It is the whole name where the containers of the
type unfold finitely, and cut off where they do not. -/
def label (p : Pool) (id : EntryId) : String :=
  p.labelWithin (p.size + 1) id

/-! ## §3. Wrappers. -/

/-- A message that holds one nested container. -/
structure Wrapper where
  name : String
  /-- The list or map it holds. -/
  container : EntryId
  deriving DecidableEq, Repr

/-- The name of the only field of a wrapper. -/
def wrapperField (p : Pool) (w : Wrapper) : String :=
  match p.resolved w.container with
  | .map _ _ => "entries"
  | _ => "values"

/-- The type in the element position of a list or map. -/
def elementPosition : Entry → Option EntryId
  | .array of => some of
  | .map _ value => some value
  | _ => none

/-- The containers nested in the element positions of `id`, from the outside in, at most `n` of
them. -/
def nestedWithin (p : Pool) : Nat → EntryId → List EntryId
  | 0, _ => []
  | n + 1, id =>
    match elementPosition (p.entry (p.element id)) with
    | none => []
    | some inner =>
      let container := p.element inner
      if p.isContainer container then container :: p.nestedWithin n container else []

/-- The containers nested in the element positions of `id`, from the outside in: all of them where
the containers unfold finitely. -/
def nested (p : Pool) (id : EntryId) : List EntryId :=
  p.nestedWithin (p.size + 1) id

/-- Adds a wrapper for each of the containers, up to the first whose name is taken. -/
def addWrappers (p : Pool) (found : List Wrapper) : List EntryId → List Wrapper
  | [] => found
  | container :: rest =>
    let name := p.label container
    if found.any (·.name = name) then found
    else p.addWrappers (found ++ [⟨name, container⟩]) rest

/-- The field types of a message. -/
def fieldTypes : Entry → List EntryId
  | .definition (.message _ fields) => fields.map (·.type)
  | _ => []

/-- The wrappers that the message fields of some definitions need, in the order of their
discovery. -/
def discoverWrappers (p : Pool) (definitions : List EntryId) : List Wrapper :=
  (definitions.flatMap fun d => fieldTypes (p.resolved d)).foldl
    (fun found type => p.addWrappers found (p.nested type)) []

/-- The wrappers that the message fields of some definitions need, by name. -/
def wrappers (p : Pool) (definitions : List EntryId) : List Wrapper :=
  Sequence.sortBy (·.name) (p.discoverWrappers definitions)

end RpcSchema.Pool
