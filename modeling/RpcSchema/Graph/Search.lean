/-
  RpcSchema.Graph.Search
  ──────────────────────
  **Depth-first search with a pending list.**

  Three questions of this library are one search: which methods an
  interface has through its embeddings, which definitions a schema
  reaches, and whether a container refers to a type under construction.
  A node is visited when it is taken from the pending list for the first
  time; its successors are then put in front, in their own order.

  The budget counts nodes taken.  `order` grants one per root and one per
  edge that leaves a listed node, which is all a search can ever take
  when only listed nodes have successors.

  Main statements: `explore_disjoint` and `explore_nodup` — no node is
  visited twice, and none that was seen before.
-/

namespace RpcSchema.Graph

variable {α : Type} [DecidableEq α]

/-! ## §1. The search. -/

/-- The nodes visited for the first time, in visiting order: `pending` is still to be taken,
`seen` was visited before. -/
def explore (next : α → List α) : Nat → List α → List α → List α
  | 0, _, _ => []
  | _ + 1, [], _ => []
  | n + 1, a :: rest, seen =>
    if a ∈ seen then explore next n rest seen
    else a :: explore next n (next a ++ rest) (a :: seen)

/-- The number of edges that leave the listed nodes. -/
def edgeCount (next : α → List α) : List α → Nat
  | [] => 0
  | a :: rest => (next a).length + edgeCount next rest

/-- The nodes reached from `roots`, in depth-first order. -/
def order (next : α → List α) (nodes roots : List α) : List α :=
  explore next (roots.length + edgeCount next nodes) roots []

/-! ## §2. No node twice. -/

/-- What was visited before is not visited again. -/
theorem explore_disjoint (next : α → List α) (n : Nat) (pending seen : List α) :
    ∀ a ∈ explore next n pending seen, a ∉ seen := by
  -- by induction on the budget: each step changes what is pending and what was seen
  induction n generalizing pending seen with
  | zero => simp [explore]
  | succ n ih =>
    cases pending with
    | nil => simp [explore]
    | cons b rest =>
      simp only [explore]
      split
      · exact ih rest seen
      · rename_i hb
        intro a ha
        rcases List.mem_cons.1 ha with rfl | ha
        · exact hb
        · exact fun h => ih _ _ a ha (List.mem_cons_of_mem b h)

/-- No node is visited twice, with whatever budget. -/
theorem explore_nodup (next : α → List α) (n : Nat) (pending seen : List α) :
    (explore next n pending seen).Nodup := by
  induction n generalizing pending seen with
  | zero => simp [explore]
  | succ n ih =>
    cases pending with
    | nil => simp [explore]
    | cons b rest =>
      simp only [explore]
      split
      · exact ih rest seen
      · -- what is taken now counts as seen from here on
        rw [List.nodup_cons]
        exact ⟨fun h => explore_disjoint next n _ _ b h List.mem_cons_self, ih _ _⟩

/-- No node stands in the order twice. -/
theorem order_nodup (next : α → List α) (nodes roots : List α) :
    (order next nodes roots).Nodup :=
  explore_nodup next _ _ _

end RpcSchema.Graph
