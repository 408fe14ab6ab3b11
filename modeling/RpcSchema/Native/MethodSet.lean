/-
  RpcSchema.Native.MethodSet
  ──────────────────────────
  **The methods a type has or asks for.**

  An interface is flattened by a depth-first walk of its embeddings: a
  type contributes its own methods before those of the types it embeds,
  each type once, and of two methods of one name the first counts.  A
  named type that is no interface contributes its declared methods.

  Main statements: `methodSet_sorted` (by name) and `methodSet_nodup`
  (one method per name).
-/
import RpcSchema.Graph.Search
import RpcSchema.Native.Universe
import RpcSchema.Sequence.KeepFirst
import RpcSchema.Sequence.Sorted

namespace RpcSchema.Universe

/-! ## §1. The embedding graph. -/

/-- The types whose methods a type takes over: a named interface those of its shape, an
interface those of the types it embeds. -/
def embeds (u : Universe) (id : NativeId) : List NativeId :=
  match u.kind id with
  | .named decl =>
    match u.kind decl.underlying with
    | .interface _ => [decl.underlying]
    | _ => []
  | .interface shape => shape.embedded
  | _ => []

/-- The methods a type contributes itself. -/
def ownMethods (u : Universe) (id : NativeId) : List Method :=
  match u.kind id with
  | .named decl =>
    if decl.underlying = .undefined then []
    else
      match u.kind decl.underlying with
      -- the methods of an interface stand in its shape
      | .interface _ => []
      | _ => decl.methods
  | .interface shape => shape.methods
  | _ => []

/-- All ids of the universe. -/
def ids (u : Universe) : List NativeId :=
  (List.range u.size).map .entry

/-- The types whose methods make up the method set of `id`, in walking order. -/
def embeddingOrder (u : Universe) (id : NativeId) : List NativeId :=
  Graph.order u.embeds u.ids [id]

/-! ## §2. The method set. -/

/-- The flattened method set of a type, by name. -/
def methodSet (u : Universe) (id : NativeId) : List Method :=
  Sequence.sortBy (·.name)
    (Sequence.keepFirst (·.name) ((u.embeddingOrder id).flatMap u.ownMethods))

/-- A method set is sorted by name. -/
theorem methodSet_sorted (u : Universe) (id : NativeId) :
    (u.methodSet id).Pairwise fun a b => a.name ≤ b.name :=
  Sequence.sortBy_sorted _ _

/-- No two methods of a set share a name. -/
theorem methodSet_nodup (u : Universe) (id : NativeId) :
    ((u.methodSet id).map (·.name)).Nodup :=
  (((Sequence.sortBy_perm _ _).map _).nodup_iff).2 (Sequence.keepFirst_nodup _ _)

/-- The names of a method set are those of the methods that are met along the embeddings. -/
theorem mem_methodSet_names {u : Universe} {id : NativeId} {name : String} :
    name ∈ (u.methodSet id).map (·.name) ↔
      ∃ t ∈ u.embeddingOrder id, ∃ m ∈ u.ownMethods t, m.name = name := by
  rw [methodSet, ((Sequence.sortBy_perm _ _).map _).mem_iff, Sequence.mem_map_keepFirst]
  simp only [List.mem_map, List.mem_flatMap]
  constructor
  · rintro ⟨m, ⟨t, ht, hm⟩, rfl⟩
    exact ⟨t, ht, m, hm, rfl⟩
  · rintro ⟨t, ht, m, hm, rfl⟩
    exact ⟨m, ⟨t, ht, hm⟩, rfl⟩

end RpcSchema.Universe
