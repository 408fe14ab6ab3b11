/-
  RpcSchema.Proofs.Graph.Cycle
  ────────────────────────────
  **WALKS THAT NEVER END RUN INTO A CYCLE.**

  A walk over listed nodes that can always go on comes back to a node it
  has passed.  Where every node has one successor at most, the cycle a
  node is on is all that can be reached from it, and it can be entered and
  left at any of its nodes.

  Main statements: `exists_cycle` and `cycle_of_reaches`.
-/
import Mathlib.Logic.Relation

namespace RpcSchema.Graph

variable {α : Type}

/-! ## §1. Finding a cycle. -/

section Listed

variable [DecidableEq α] {nodes : List α}

/-- A node that is passed is one less to pass. -/
theorem length_unseen {a : α} {seen : List α} (ha : a ∉ seen) (hn : a ∈ nodes) :
    (nodes.filter (· ∉ a :: seen)).length < (nodes.filter (· ∉ seen)).length := by
  have hsub : nodes.filter (· ∉ a :: seen) = (nodes.filter (· ∉ seen)).filter (· ≠ a) := by
    rw [List.filter_filter]
    congr 1
    funext k
    simp [not_or]
  rw [hsub, List.length_filter_lt_length_iff_exists]
  exact ⟨a, List.mem_filter.2 ⟨hn, by simpa using ha⟩, by simp⟩

/-- **A walk that can always go on runs into a cycle.**  By induction on the nodes not passed
yet; from each of those that were passed the walk leads to where it stands. -/
theorem exists_cycle {R : α → α → Prop} {P : α → Prop} (hnodes : ∀ a, P a → a ∈ nodes)
    (hnext : ∀ a, P a → ∃ b, R a b ∧ P b) {a : α} (ha : P a) (seen : List α)
    (hseen : ∀ k ∈ seen, Relation.TransGen R k a) :
    ∃ c, P c ∧ Relation.ReflTransGen R a c ∧ Relation.TransGen R c c := by
  induction hk : (nodes.filter (· ∉ seen)).length using Nat.strongRecOn
    generalizing a seen with
  | _ k ih =>
    by_cases hmem : a ∈ seen
    · -- the walk is back at a node it has passed
      exact ⟨a, ha, .refl, hseen a hmem⟩
    · -- the walk goes on
      obtain ⟨b, hab, hb⟩ := hnext a ha
      subst hk
      have hseen' : ∀ k ∈ a :: seen, Relation.TransGen R k b := by
        intro k hk
        rcases List.mem_cons.1 hk with rfl | hk
        · exact .single hab
        · exact (hseen k hk).tail hab
      obtain ⟨c, hc, hbc, hcc⟩ :=
        ih _ (length_unseen hmem (hnodes a ha)) hb (a :: seen) hseen' rfl
      exact ⟨c, hc, .head hab hbc, hcc⟩

end Listed

/-! ## §2. One successor at most. -/

variable {R : α → α → Prop} {a b c : α}

/-- What is reached from a node on a cycle is on the cycle, and leads back. -/
theorem cycle_of_reaches (hR : ∀ a b c, R a b → R a c → b = c) (ha : Relation.TransGen R a a)
    (hab : Relation.ReflTransGen R a b) : Relation.TransGen R b a := by
  induction hab with
  | refl => exact ha
  | tail _ hstep ih =>
    -- the way back starts with the only step there is
    obtain ⟨d, hd, hda⟩ := Relation.TransGen.head'_iff.1 ih
    obtain rfl := hR _ _ _ hstep hd
    exact Relation.TransGen.trans_right hda ha

/-- A walk ends at one node at most. -/
theorem end_unique (hR : ∀ a b c, R a b → R a c → b = c) (hb : Relation.ReflTransGen R a b)
    (hc : Relation.ReflTransGen R a c) (hbend : ∀ d, ¬ R b d) (hcend : ∀ d, ¬ R c d) : b = c := by
  have hstuck : ∀ {x y : α}, (∀ d, ¬ R x d) → Relation.ReflTransGen R x y → x = y := by
    intro x y hx hxy
    rcases Relation.ReflTransGen.cases_head hxy with h | ⟨d, hxd, _⟩
    · exact h
    · exact absurd hxd (hx d)
  rcases Relation.ReflTransGen.total_of_right_unique hR hb hc with h | h
  · exact hstuck hbend h
  · exact (hstuck hcend h).symm

/-! ## §3. Cutting walks. -/

/-- A walk to a node can be cut where it meets the node for the first time. -/
theorem reaches_before (h : Relation.ReflTransGen R a b) :
    Relation.ReflTransGen (fun x y => R x y ∧ x ≠ b) a b := by
  induction h using Relation.ReflTransGen.head_induction_on with
  | refl => exact .refl
  | @head x y hxy _ ih =>
    by_cases hx : x = b
    · -- it starts at `b`, so nothing of it is left
      rw [hx]
    · exact .head ⟨hxy, hx⟩ ih

/-- A walk from a node to another one can be cut where it leaves the node for the last time. -/
theorem reaches_after (h : Relation.ReflTransGen R a b) (hne : b ≠ a) :
    ∃ c, R a c ∧ Relation.ReflTransGen (fun x y => R x y ∧ x ≠ a) c b := by
  have hcut : b = a ∨ ∃ c, R a c ∧ Relation.ReflTransGen (fun x y => R x y ∧ x ≠ a) c b := by
    clear hne
    induction h with
    | refl => exact Or.inl rfl
    | @tail x y _ hxy ih =>
      by_cases hx : x = a
      · -- it leaves `a` again, and here for the last time so far
        exact Or.inr ⟨y, hx ▸ hxy, .refl⟩
      · obtain ⟨c, hac, hcx⟩ := ih.resolve_left hx
        exact Or.inr ⟨c, hac, hcx.tail ⟨hxy, hx⟩⟩
  exact hcut.resolve_left hne

end RpcSchema.Graph
