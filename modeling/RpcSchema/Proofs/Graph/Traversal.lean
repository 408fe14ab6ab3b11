/-
  RpcSchema.Proofs.Graph.Traversal
  ────────────────────────────────
  **THE SEARCH WITHOUT ITS BUDGET.**

  `explore` is bounded by a budget of nodes taken.  When only listed nodes
  have successors, `work` bounds what a search can still take: one per
  pending node, one per edge that leaves an unseen node.  From there on the
  budget does not matter, and the search satisfies the equations of the
  unbounded one:

      search (a :: rest) seen = search rest seen                        a seen
      search (a :: rest) seen = a :: search (next a ++ rest) (a :: seen)  else

  Main statements: `search_cons_of_not_mem` (the equation) and
  `mem_order_iff` — the search visits exactly what can be reached.
-/
import Mathlib.Logic.Relation
import Mathlib.Tactic.Tauto
import RpcSchema.Graph.Search

namespace RpcSchema.Graph

variable {α : Type} [DecidableEq α] {next : α → List α} {nodes : List α}

/-! ## §1. What a search can still take. -/

/-- The pending nodes, and the edges that leave the nodes not seen yet. -/
def work (next : α → List α) (nodes pending seen : List α) : Nat :=
  pending.length + edgeCount next (nodes.filter (· ∉ seen))

variable (next) in
/-- To see one more node leaves no more edges to follow. -/
theorem edgeCount_filter_not_mem_cons_le (a : α) (seen l : List α) :
    edgeCount next (l.filter (· ∉ a :: seen)) ≤ edgeCount next (l.filter (· ∉ seen)) := by
  induction l with
  | nil => exact Nat.le_refl _
  | cons b rest ih =>
    by_cases hs : b ∈ seen
    · rw [List.filter_cons_of_neg (by simp [hs]), List.filter_cons_of_neg (by simp [hs])]
      exact ih
    · by_cases hb : b = a
      · -- seen from now on, so only the right counts its edges
        rw [List.filter_cons_of_neg (by simp [hb]), List.filter_cons_of_pos (by simp [hs])]
        exact Nat.le_trans ih (Nat.le_add_left _ _)
      · rw [List.filter_cons_of_pos (by simp [hb, hs]), List.filter_cons_of_pos (by simp [hs])]
        exact Nat.add_le_add_left ih _

variable (next) in
/-- Seeing a listed node takes its edges away. -/
theorem edgeCount_seen_of_mem {a : α} {seen l : List α} (ha : a ∉ seen) (hl : a ∈ l) :
    (next a).length + edgeCount next (l.filter (· ∉ a :: seen))
      ≤ edgeCount next (l.filter (· ∉ seen)) := by
  induction l with
  | nil => exact absurd hl List.not_mem_nil
  | cons b rest ih =>
    by_cases hb : b = a
    · -- found: its edges are counted on the right only
      subst hb
      rw [List.filter_cons_of_neg (by simp), List.filter_cons_of_pos (by simpa using ha)]
      exact Nat.add_le_add_left (edgeCount_filter_not_mem_cons_le next b seen rest) _
    · -- another node counts alike on both sides
      have hrest : a ∈ rest := (List.mem_cons.1 hl).resolve_left (Ne.symm hb)
      have hih := ih hrest
      by_cases hs : b ∈ seen
      · rw [List.filter_cons_of_neg (by simp [hs]), List.filter_cons_of_neg (by simp [hs])]
        exact hih
      · rw [List.filter_cons_of_pos (by simp [hb, hs]),
          List.filter_cons_of_pos (by simpa using hs)]
        show _ + ((next b).length + _) ≤ (next b).length + _
        omega

variable (next nodes) in
/-- To drop a pending node saves a step. -/
theorem work_drop (a : α) (rest seen : List α) :
    work next nodes rest seen + 1 = work next nodes (a :: rest) seen := by
  unfold work
  rw [List.length_cons]
  omega

/-- **To visit a node saves one**, since its edges leave the count as its successors enter. -/
theorem work_visit (hnext : ∀ a, a ∉ nodes → next a = []) {a : α} (rest : List α)
    {seen : List α} (ha : a ∉ seen) :
    work next nodes (next a ++ rest) (a :: seen) + 1 ≤ work next nodes (a :: rest) seen := by
  unfold work
  rw [List.length_append, List.length_cons]
  by_cases hn : a ∈ nodes
  · -- its edges are pending now, and no longer left to take
    have hle := edgeCount_seen_of_mem next ha hn
    omega
  · -- a node that is not listed has no edges
    have hle := edgeCount_filter_not_mem_cons_le next a seen nodes
    rw [hnext a hn, List.length_nil]
    omega

/-! ## §2. A sufficient budget does not matter. -/

/-- **Two budgets that suffice find the same.** -/
theorem explore_eq_of_work_le (hnext : ∀ a, a ∉ nodes → next a = []) (n m : Nat)
    (pending seen : List α) (hn : work next nodes pending seen ≤ n)
    (hm : work next nodes pending seen ≤ m) :
    explore next n pending seen = explore next m pending seen := by
  -- on the first budget; the second is taken apart along with it
  induction n generalizing m pending seen with
  | zero =>
    cases pending with
    | nil => cases m <;> rfl
    | cons a rest =>
      -- something is pending, so a budget of nothing is too small
      rw [← work_drop] at hn
      omega
  | succ n ih =>
    cases pending with
    | nil => cases m <;> rfl
    | cons a rest =>
      have hdrop := work_drop next nodes a rest seen
      obtain ⟨m, rfl⟩ : ∃ k, m = k + 1 := ⟨m - 1, by omega⟩
      by_cases ha : a ∈ seen
      · -- a node that was seen takes one step and adds nothing
        simp only [explore, if_pos ha]
        exact ih m rest seen (by omega) (by omega)
      · -- a new node is exchanged for the edges that leave it
        have hvisit := work_visit hnext rest ha
        simp only [explore, if_neg ha]
        rw [ih m (next a ++ rest) (a :: seen) (by omega) (by omega)]

/-- The search with the budget it needs. -/
def search (next : α → List α) (nodes pending seen : List α) : List α :=
  explore next (work next nodes pending seen) pending seen

theorem search_nil (seen : List α) : search next nodes [] seen = [] := by
  unfold search
  cases work next nodes [] seen <;> rfl

theorem search_cons_of_mem {a : α} {rest seen : List α} (ha : a ∈ seen) :
    search next nodes (a :: rest) seen = search next nodes rest seen := by
  unfold search
  rw [← work_drop, explore, if_pos ha]

/-- A node that was not is found, and its successors are searched first. -/
theorem search_cons_of_not_mem (hnext : ∀ a, a ∉ nodes → next a = []) {a : α}
    {rest seen : List α} (ha : a ∉ seen) :
    search next nodes (a :: rest) seen
      = a :: search next nodes (next a ++ rest) (a :: seen) := by
  have hvisit := work_visit hnext rest ha
  have hdrop := work_drop next nodes a rest seen
  unfold search
  rw [← hdrop, explore, if_neg ha]
  congr 1
  exact explore_eq_of_work_le hnext _ _ _ _ (by omega) (Nat.le_refl _)

theorem order_eq_search (roots : List α) :
    order next nodes roots = search next nodes roots [] := by
  unfold order search work
  rw [List.filter_eq_self.2 (fun a _ => by simp)]

/-- **The search does not depend on its budget**, as long as it is no smaller. -/
theorem explore_eq_order (hnext : ∀ a, a ∉ nodes → next a = []) {k : Nat} {roots : List α}
    (hk : roots.length + edgeCount next nodes ≤ k) :
    explore next k roots [] = order next nodes roots := by
  have hwork : work next nodes roots [] = roots.length + edgeCount next nodes := by
    unfold work
    rw [List.filter_eq_self.2 (fun a _ => by simp)]
  exact explore_eq_of_work_le hnext k _ roots [] (by omega) (by omega)

/-- Induction along a search: a node taken was seen before, or is visited now. -/
theorem search_induction (hnext : ∀ a, a ∉ nodes → next a = [])
    {motive : List α → List α → Prop} (nil : ∀ seen, motive [] seen)
    (seen : ∀ a rest seen, a ∈ seen → motive rest seen → motive (a :: rest) seen)
    (visit : ∀ a rest seen, a ∉ seen → motive (next a ++ rest) (a :: seen) →
      motive (a :: rest) seen) :
    ∀ pending before, motive pending before := by
  intro pending before
  -- the work falls with every step, whether a node is dropped or visited
  induction hw : work next nodes pending before using Nat.strongRecOn
    generalizing pending before with
  | _ w ih =>
    cases pending with
    | nil => exact nil before
    | cons a rest =>
      subst hw
      by_cases ha : a ∈ before
      · refine seen a rest before ha (ih _ ?_ rest before rfl)
        rw [← work_drop next nodes a]
        omega
      · refine visit a rest before ha (ih _ ?_ (next a ++ rest) (a :: before) rfl)
        have hvisit := work_visit hnext rest ha
        omega

/-! ## §3. The search visits what can be reached. -/

/-- `b` is reached from `a` along edges. -/
def Reaches (next : α → List α) : α → α → Prop :=
  Relation.ReflTransGen fun a b => b ∈ next a

/-- What is found is reached. -/
theorem reaches_of_mem_search (hnext : ∀ a, a ∉ nodes → next a = []) (pending before : List α) :
    ∀ b ∈ search next nodes pending before, ∃ a ∈ pending, Reaches next a b := by
  -- along the search
  induction pending, before using search_induction hnext with
  | nil seen =>
    intro b hb
    rw [search_nil] at hb
    exact absurd hb List.not_mem_nil
  | seen a rest seen ha ih =>
    intro b hb
    rw [search_cons_of_mem ha] at hb
    obtain ⟨r, hr, hrb⟩ := ih b hb
    exact ⟨r, List.mem_cons_of_mem a hr, hrb⟩
  | visit a rest seen ha ih =>
    intro b hb
    rw [search_cons_of_not_mem hnext ha] at hb
    rcases List.mem_cons.1 hb with rfl | hb
    · exact ⟨b, List.mem_cons_self, .refl⟩
    · obtain ⟨r, hr, hrb⟩ := ih b hb
      -- found from a successor of the node, or from what was pending
      rcases List.mem_append.1 hr with hr | hr
      · exact ⟨a, List.mem_cons_self, .head hr hrb⟩
      · exact ⟨r, List.mem_cons_of_mem a hr, hrb⟩

/-- What is pending is found, or was. -/
theorem mem_search_of_pending (hnext : ∀ a, a ∉ nodes → next a = []) (pending before : List α) :
    ∀ b ∈ pending, b ∈ before ∨ b ∈ search next nodes pending before := by
  -- along the search
  induction pending, before using search_induction hnext with
  | nil seen => exact fun b hb => absurd hb List.not_mem_nil
  | seen a rest seen ha ih =>
    intro b hb
    rw [search_cons_of_mem ha]
    rcases List.mem_cons.1 hb with rfl | hb
    · exact Or.inl ha
    · exact ih b hb
  | visit a rest seen ha ih =>
    intro b hb
    rw [search_cons_of_not_mem hnext ha]
    rcases List.mem_cons.1 hb with rfl | hb
    · exact Or.inr List.mem_cons_self
    · rcases ih b (List.mem_append_right _ hb) with hs | hs
      · rcases List.mem_cons.1 hs with rfl | hs
        · exact Or.inr List.mem_cons_self
        · exact Or.inl hs
      · exact Or.inr (List.mem_cons_of_mem a hs)

/-- The seen and the visited nodes together are closed under edges, if the edges that leave the
seen ones lead to seen or pending nodes. -/
theorem search_closed (hnext : ∀ a, a ∉ nodes → next a = []) (pending before : List α) :
    (∀ a ∈ before, ∀ b ∈ next a, b ∈ before ∨ b ∈ pending) →
    ∀ a, a ∈ before ∨ a ∈ search next nodes pending before → ∀ b ∈ next a,
      b ∈ before ∨ b ∈ search next nodes pending before := by
  induction pending, before using search_induction hnext with
  | nil seen =>
    intro hseen a ha b hb
    rw [search_nil] at ha ⊢
    have ha := ha.resolve_right List.not_mem_nil
    exact Or.inl ((hseen a ha b hb).resolve_right List.not_mem_nil)
  | seen c rest seen hc ih =>
    intro hseen a ha b hb
    rw [search_cons_of_mem hc] at ha ⊢
    refine ih (fun x hx y hy => ?_) a ha b hb
    rcases hseen x hx y hy with h | h
    · exact Or.inl h
    · rcases List.mem_cons.1 h with rfl | h
      · exact Or.inl hc
      · exact Or.inr h
  | visit c rest seen hc ih =>
    intro hseen a ha b hb
    -- the edges that leave `c` are pending now
    have hpush : ∀ x ∈ c :: seen, ∀ y ∈ next x, y ∈ c :: seen ∨ y ∈ next c ++ rest := by
      intro x hx y hy
      rcases List.mem_cons.1 hx with rfl | hx
      · exact Or.inr (List.mem_append_left _ hy)
      · rcases hseen x hx y hy with h | h
        · exact Or.inl (List.mem_cons_of_mem c h)
        · rcases List.mem_cons.1 h with rfl | h
          · exact Or.inl List.mem_cons_self
          · exact Or.inr (List.mem_append_right _ h)
    rw [search_cons_of_not_mem hnext hc] at ha ⊢
    -- `c` moves from the visited nodes of the step to the seen ones of what follows
    have hmove : ∀ x, (x ∈ seen ∨ x ∈ c :: search next nodes (next c ++ rest) (c :: seen))
        ↔ (x ∈ c :: seen ∨ x ∈ search next nodes (next c ++ rest) (c :: seen)) := by
      intro x
      simp only [List.mem_cons]
      tauto
    exact (hmove b).2 (ih hpush a ((hmove a).1 ha) b hb)

/-- **The search visits exactly the nodes that can be reached from its roots.** -/
theorem mem_order_iff (hnext : ∀ a, a ∉ nodes → next a = []) {roots : List α} {b : α} :
    b ∈ order next nodes roots ↔ ∃ a ∈ roots, Reaches next a b := by
  rw [order_eq_search]
  constructor
  · exact reaches_of_mem_search hnext roots [] b
  · rintro ⟨a, ha, hab⟩
    -- the roots are visited, and every step from a visited node leads to one
    induction hab with
    | refl =>
      exact (mem_search_of_pending hnext roots [] a ha).resolve_left List.not_mem_nil
    | tail _ hstep ih =>
      have hclosed := search_closed hnext roots [] (fun x hx => absurd hx List.not_mem_nil)
      exact (hclosed _ (Or.inr ih) _ hstep).resolve_left List.not_mem_nil

end RpcSchema.Graph
