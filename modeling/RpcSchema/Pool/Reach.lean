/-
  RpcSchema.Pool.Reach
  ────────────────────
  **The definitions a list of types reaches.**

  References are resolved before an entry is visited, so a definition that
  is reached through a cycle is found once, and found as itself.
-/
import RpcSchema.Pool.Resolve

namespace RpcSchema.Pool

/-- The resolved parts of an entry, in source order. -/
def successors (p : Pool) (id : EntryId) : List EntryId :=
  (p.entry id).parts.map p.resolve

/-- The entries reached from `roots`, in depth-first order. -/
def visitOrder (p : Pool) (roots : List EntryId) : List EntryId :=
  Graph.order p.successors p.ids (roots.map p.resolve)

/-- The definitions reached from `roots`, in depth-first order. -/
def reachable (p : Pool) (roots : List EntryId) : List EntryId :=
  (p.visitOrder roots).filter fun id => (p.entry id).isDefinition

/-- No definition is reached twice. -/
theorem reachable_nodup (p : Pool) (roots : List EntryId) : (p.reachable roots).Nodup :=
  (Graph.order_nodup _ _ _).sublist List.filter_sublist

/-- Only definitions are among what is reached. -/
theorem isDefinition_of_mem_reachable {p : Pool} {roots : List EntryId} {id : EntryId}
    (h : id ∈ p.reachable roots) : (p.entry id).isDefinition = true :=
  (List.mem_filter.1 h).2

end RpcSchema.Pool
