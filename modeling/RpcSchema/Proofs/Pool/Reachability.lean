/-
  RpcSchema.Proofs.Pool.Reachability
  ──────────────────────────────────
  **WHICH DEFINITIONS ARE REACHED, AND IN WHICH ORDER.**

  From an entry the search goes to what it is made of: the type behind an
  optional marker, the elements of a list, the key and the value of a map,
  the fields of a message, the implementations of an interface.  All of
  them are resolved first.

  Whatever references and cycles a pool has, the search ends, and comes by
  the entries in the order of the recursive depth-first search.

  Main statement: `reachable_depth_first`.
-/
import RpcSchema.Proofs.Graph.Descent
import RpcSchema.Proofs.Proto.Visited

namespace RpcSchema.Pool

variable {p : Pool} {a b : EntryId}

/-! ## §1. From an entry to what it is made of. -/

/-- An entry is made of another one, after resolution. -/
inductive Edge (p : Pool) (a : EntryId) : EntryId → Prop
  | optional {of : EntryId} (ha : p.entry a = .optional of) : Edge p a (p.resolve of)
  | element {of : EntryId} (ha : p.entry a = .array of) : Edge p a (p.resolve of)
  | key {key value : EntryId} (ha : p.entry a = .map key value) : Edge p a (p.resolve key)
  | value {key value : EntryId} (ha : p.entry a = .map key value) : Edge p a (p.resolve value)
  | field {name : String} {fields : List MessageField} {f : MessageField}
      (ha : p.entry a = .definition (.message name fields)) (hf : f ∈ fields) :
      Edge p a (p.resolve f.type)
  | implementation {name : String} {ids : List EntryId} {id : EntryId}
      (ha : p.entry a = .definition (.interface name ids)) (hid : id ∈ ids) :
      Edge p a (p.resolve id)

/-- The edges are those that the search takes. -/
theorem edge_iff : p.Edge a b ↔ b ∈ p.successors a := by
  unfold successors
  constructor
  · intro h
    cases h with
    | optional ha | element ha | key ha | value ha => simp [ha, Entry.parts]
    | field ha hf =>
      rw [ha]
      exact List.mem_map_of_mem (List.mem_map_of_mem hf)
    | implementation ha hid =>
      rw [ha]
      exact List.mem_map_of_mem hid
  · intro h
    obtain ⟨x, hx, rfl⟩ := List.mem_map.1 h
    -- by the entry: what is in it, and nothing else
    cases ha : p.entry a with
    | scalar | any | reference =>
      rw [ha] at hx
      exact absurd hx List.not_mem_nil
    | optional of =>
      rw [ha] at hx
      rw [List.mem_singleton.1 hx]
      exact .optional ha
    | array of =>
      rw [ha] at hx
      rw [List.mem_singleton.1 hx]
      exact .element ha
    | map key value =>
      rw [ha] at hx
      rcases List.mem_cons.1 hx with hkey | hvalue
      · rw [hkey]
        exact .key ha
      · rw [List.mem_singleton.1 hvalue]
        exact .value ha
    | definition d =>
      rw [ha] at hx
      cases d with
      | message name fields =>
        obtain ⟨f, hf, hfx⟩ := List.mem_map.1 hx
        rw [← hfx]
        exact .field ha hf
      | enum name members => exact absurd hx List.not_mem_nil
      | interface name ids => exact .implementation ha hx

/-- Walks of the search are walks along edges. -/
theorem reaches_iff :
    Graph.Reaches p.successors a b ↔ Relation.ReflTransGen p.Edge a b := by
  have hstep : (fun a b => b ∈ p.successors a) = p.Edge := by
    funext a b
    exact propext edge_iff.symm
  unfold Graph.Reaches
  rw [hstep]

/-! ## §2. The definitions that are reached. -/

/-- **The definitions that are reached, in depth-first order.**

For every pool and all roots: the recursive search, which takes the roots and then the parts of
each entry in source order and enters each resolved entry once, ends with one list of entries; the
search with a list of pending entries gives the same, with every budget that is large enough.  The
definitions reached are those of this list, in its order, none of them twice; and they are exactly
the definitions that edges lead to from a resolved root. -/
theorem reachable_depth_first (p : Pool) (roots : List EntryId) :
    (∃ visited,
      (∀ found, Graph.Descends p.successors [] (roots.map p.resolve) found ↔ found = visited) ∧
      (∃ bound, ∀ budget ≥ bound,
        Graph.explore p.successors budget (roots.map p.resolve) [] = visited) ∧
      p.reachable roots = visited.filter fun id => (p.entry id).isDefinition) ∧
    (p.reachable roots).Nodup ∧
    ∀ id, id ∈ p.reachable roots ↔
      (∃ d, p.entry id = .definition d) ∧
        ∃ root ∈ roots, Relation.ReflTransGen p.Edge (p.resolve root) id := by
  have hbudget : ∀ budget ≥ (roots.map p.resolve).length + Graph.edgeCount p.successors p.ids,
      Graph.explore p.successors budget (roots.map p.resolve) [] = p.visitOrder roots :=
    fun _ hle => Graph.explore_eq_order successors_of_not_mem_ids hle
  -- visited is what can be reached, definitions or not
  have hvisited : ∀ id, id ∈ p.visitOrder roots ↔
      ∃ root ∈ roots, Relation.ReflTransGen p.Edge (p.resolve root) id := by
    intro id
    unfold visitOrder
    rw [Graph.mem_order_iff successors_of_not_mem_ids]
    simp [reaches_iff]
  refine ⟨⟨p.visitOrder roots, fun found => ?_, ⟨_, hbudget⟩, rfl⟩, p.reachable_nodup roots,
    fun id => ?_⟩
  · exact Graph.descends_iff successors_of_not_mem_ids
  · rw [mem_reachable_iff, Entry.isDefinition_iff, hvisited, and_comm]

end RpcSchema.Pool
