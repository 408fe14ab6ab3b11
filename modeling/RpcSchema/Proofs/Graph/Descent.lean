/-
  RpcSchema.Proofs.Graph.Descent
  ──────────────────────────────
  **THE SEARCH IS THE RECURSIVE ONE.**

  The recursive search takes the pending nodes one after another.  A node
  that was visited before is passed over; any other is visited, then
  everything below it, and only then the next pending one.

  The search of this library keeps one list of what is pending, and puts
  the successors of a node in front of it.  Behind every such list stand
  the recursive calls that are still to be made: what is visited from
  `xs ++ ys` is what is visited from `xs`, and after that from `ys`.

  Main statements: `Descends.split` (the pending list as calls one after
  another) and `descends_iff` (the recursive search ends on every graph,
  in the order of the search with a list).
-/
import RpcSchema.Proofs.Graph.Traversal

namespace RpcSchema.Graph

variable {α : Type} {next : α → List α} {seen pending found : List α}

/-! ## §1. The recursive search. -/

/-- From the pending nodes, one after another and each with everything below it, the nodes of
`found` are visited in this order, if those of `seen` were visited before. -/
inductive Descends (next : α → List α) : List α → List α → List α → Prop
  | nil (seen : List α) : Descends next seen [] []
  | again {a : α} {seen rest found : List α} (ha : a ∈ seen)
      (hrest : Descends next seen rest found) : Descends next seen (a :: rest) found
  | enter {a : α} {seen rest below found : List α} (ha : a ∉ seen)
      (hbelow : Descends next (a :: seen) (next a) below)
      (hrest : Descends next (below.reverse ++ a :: seen) rest found) :
      Descends next seen (a :: rest) (a :: below ++ found)

/-- **The recursive search has one result at most.** -/
theorem Descends.unique (h : Descends next seen pending found) :
    ∀ {found' : List α}, Descends next seen pending found' → found = found' := by
  induction h with
  | nil seen =>
    intro found' h'
    cases h'
    rfl
  | again ha _ ih =>
    intro found' h'
    cases h' with
    | again _ hrest' => exact ih hrest'
    | enter hnot _ _ => exact absurd ha hnot
  | enter ha _ _ ihbelow ihrest =>
    intro found' h'
    cases h' with
    | again hmem _ => exact absurd hmem ha
    | enter _ hbelow' hrest' =>
      -- what is below was visited before the rest, so the rest starts from the same nodes
      obtain rfl := ihbelow hbelow'
      rw [ihrest hrest']

/-- **A pending list stands for recursive calls one after another.**  By induction on the nodes of
the first call. -/
theorem Descends.split (xs ys : List α) :
    ∀ {seen found : List α}, Descends next seen (xs ++ ys) found →
      ∃ first later, found = first ++ later ∧ Descends next seen xs first ∧
        Descends next (first.reverse ++ seen) ys later := by
  induction xs with
  | nil =>
    intro seen found h
    exact ⟨[], found, rfl, .nil seen, h⟩
  | cons a xs ih =>
    intro seen found h
    cases h with
    | again ha hrest =>
      obtain ⟨first, later, hfound, hfirst, hlater⟩ := ih hrest
      exact ⟨first, later, hfound, .again ha hfirst, hlater⟩
    | @enter _ _ _ below found ha hbelow hrest =>
      obtain ⟨first, later, hfound, hfirst, hlater⟩ := ih hrest
      refine ⟨a :: below ++ first, later, ?_, .enter ha hbelow hfirst, ?_⟩
      · rw [hfound, List.append_assoc]
      · -- the nodes seen are the same, in the order in which they were seen
        have hseen : (a :: below ++ first).reverse ++ seen
            = first.reverse ++ (below.reverse ++ a :: seen) := by
          simp
        rw [hseen]
        exact hlater

/-! ## §2. The search with a list of pending nodes. -/

variable [DecidableEq α] {nodes : List α}

/-- The search with a list makes the calls of the recursive one.  By induction along the search: a
node that is visited has its successors in front of the list, which stand for the call below it. -/
theorem descends_search (hnext : ∀ a, a ∉ nodes → next a = []) (pending seen : List α) :
    Descends next seen pending (search next nodes pending seen) := by
  -- along the search
  induction pending, seen using search_induction hnext with
  | nil seen =>
    rw [search_nil]
    exact .nil seen
  | seen a rest seen ha ih =>
    rw [search_cons_of_mem ha]
    exact .again ha ih
  | visit a rest seen ha ih =>
    rw [search_cons_of_not_mem hnext ha]
    -- what is found below the node, and what is found after it
    obtain ⟨below, later, hfound, hbelow, hlater⟩ := ih.split (next a) rest
    rw [hfound]
    exact .enter ha hbelow hlater

/-- **The recursive search ends, and visits the nodes in the order of the search with a list.** -/
theorem descends_iff (hnext : ∀ a, a ∉ nodes → next a = []) {roots : List α} :
    Descends next [] roots found ↔ found = order next nodes roots := by
  rw [order_eq_search]
  have hsearch := descends_search hnext roots []
  constructor
  · intro h
    exact h.unique hsearch
  · intro h
    rw [h]
    exact hsearch

end RpcSchema.Graph
