/-
  RpcSchema.Proofs.Graph.Contraction
  ──────────────────────────────────
  **A SEARCH SEEN FROM ITS STOPS.**

  Some nodes are stops, the others lie between them.  The stops that a
  search visits, in their order, are what a search from stop to stop
  visits: one that goes from a stop to the heads of its successors, the
  stops that are met first.

  This needs that no walk between stops goes on for ever, and that such a
  walk does not branch but for nodes without successors.  Otherwise a node
  between stops could be seen while some of its heads are still far down in
  the list of pending nodes.

  A search does not depend on what the nodes are: a map that respects edges
  and is injective on what can be met takes one search to the other.

  Main statements: `endsWithin_of_acc` (how far a walk goes that ends),
  `filter_search` (the contraction) and `search_map`.
-/
import Mathlib.Data.List.Nodup
import RpcSchema.Proofs.Graph.Traversal

namespace RpcSchema.Graph

variable {α : Type} {next : α → List α} {nodes : List α} {a b : α}

/-! ## §1. Walks that end. -/

/-- Every walk from a node ends before it has taken `n` steps. -/
def EndsWithin (next : α → List α) : Nat → α → Prop
  | 0, _ => False
  | n + 1, a => ∀ b ∈ next a, EndsWithin next n b

theorem EndsWithin.succ {n : Nat} (h : EndsWithin next n a) : EndsWithin next (n + 1) a := by
  induction n generalizing a with
  | zero => exact h.elim
  | succ n ih => exact fun b hb => ih (h b hb)

/-- Every walk from a node ends. -/
def Ends (next : α → List α) (a : α) : Prop :=
  Acc (fun b a => b ∈ next a) a

theorem Ends.step (h : Ends next a) (hb : b ∈ next a) : Ends next b :=
  Acc.inv h hb

theorem EndsWithin.ends {n : Nat} (h : EndsWithin next n a) : Ends next a := by
  induction n generalizing a with
  | zero => exact h.elim
  | succ n ih => exact Acc.intro a fun b hb => ih (h b hb)

/-- A node that a walk comes back to is on a walk without end. -/
theorem Ends.not_returns (h : Ends next a) :
    ¬ Relation.TransGen (fun a b => b ∈ next a) a a := by
  induction h with
  | intro a _ ih =>
    intro hcycle
    -- the cycle can be entered at the first step from `a`
    obtain ⟨b, hab, hba⟩ := Relation.TransGen.head'_iff.1 hcycle
    exact ih b hab (Relation.TransGen.tail' hba hab)

/-- **A walk that ends takes no more steps than there are nodes.**  By induction on the steps
left; the nodes passed so far are different, because the walk comes back to none of them. -/
theorem endsWithin_of_passed (hnext : ∀ a, a ∉ nodes → next a = []) (n : Nat) (passed : List α)
    (hlen : n + passed.length = nodes.length + 1) (hnodup : passed.Nodup)
    (hsub : passed ⊆ nodes) (h : Ends next a)
    (hpassed : ∀ c ∈ passed, Relation.TransGen (fun a b => b ∈ next a) c a) :
    EndsWithin next n a := by
  -- on the steps that are left, with the nodes passed so far
  induction n generalizing a passed with
  | zero =>
    have hle := hnodup.length_le_of_subset hsub
    omega
  | succ n ih =>
    intro b hb
    have ha : a ∈ nodes := by
      by_contra hnot
      rw [hnext a hnot] at hb
      exact absurd hb List.not_mem_nil
    -- a node that is passed twice would be on a cycle
    refine ih (a :: passed) (by rw [List.length_cons]; omega)
      (List.nodup_cons.2 ⟨fun hmem => h.not_returns (hpassed a hmem), hnodup⟩)
      (List.cons_subset.2 ⟨ha, hsub⟩) (h.step hb) fun c hc => ?_
    rcases List.mem_cons.1 hc with rfl | hc
    · exact .single hb
    · exact (hpassed c hc).tail hb

/-- **Walks that end do so within as many steps as there are nodes.** -/
theorem endsWithin_of_acc (hnext : ∀ a, a ∉ nodes → next a = []) (h : Ends next a) :
    EndsWithin next (nodes.length + 1) a :=
  endsWithin_of_passed hnext _ [] (by simp) List.nodup_nil (List.nil_subset _) h
    fun _ hc => absurd hc List.not_mem_nil

/-! ## §2. Heads. -/

variable {stop : α → Bool}

/-- The successors of a node that is no stop. -/
def between (next : α → List α) (stop : α → Bool) (a : α) : List α :=
  if stop a then [] else next a

theorem between_of_stop (h : stop a = true) : between next stop a = [] := by
  simp [between, h]

theorem between_of_not_stop (h : stop a = false) : between next stop a = next a := by
  simp [between, h]

/-- The stops that are met first, at most `n` nodes on. -/
def headsWithin (next : α → List α) (stop : α → Bool) : Nat → α → List α
  | 0, _ => []
  | n + 1, a => if stop a then [a] else (next a).flatMap (headsWithin next stop n)

/-- The stops that are met first from a node; a stop is met at once. -/
def heads (next : α → List α) (stop : α → Bool) (nodes : List α) (a : α) : List α :=
  headsWithin next stop (nodes.length + 1) a

/-- Heads are stops. -/
theorem stop_of_mem_headsWithin {n : Nat} (h : b ∈ headsWithin next stop n a) :
    stop b = true := by
  induction n generalizing a with
  | zero => exact absurd h List.not_mem_nil
  | succ n ih =>
    unfold headsWithin at h
    split at h
    · rwa [List.mem_singleton.1 h]
    · obtain ⟨c, _, hc⟩ := List.mem_flatMap.1 h
      exact ih hc

theorem stop_of_mem_heads (h : b ∈ heads next stop nodes a) : stop b = true :=
  stop_of_mem_headsWithin h

/-- A budget that is not met does not matter. -/
theorem headsWithin_succ {n : Nat} (h : EndsWithin (between next stop) n a) :
    headsWithin next stop (n + 1) a = headsWithin next stop n a := by
  -- on the budget, which the way ends within
  induction n generalizing a with
  | zero => exact h.elim
  | succ n ih =>
    rw [headsWithin, headsWithin]
    split
    · rfl
    · rename_i hstop
      refine List.flatMap_congr fun b hb => ih (h b ?_)
      rwa [between_of_not_stop (by simpa using hstop)]

theorem heads_of_stop (h : stop a = true) : heads next stop nodes a = [a] := by
  simp [heads, headsWithin, h]

/-- **A node between stops has the heads of its successors.** -/
theorem heads_of_not_stop (hnext : ∀ a, a ∉ nodes → next a = [])
    (hends : Ends (between next stop) a) (h : stop a = false) :
    heads next stop nodes a = (next a).flatMap (heads next stop nodes) := by
  have hbetween : ∀ a, a ∉ nodes → between next stop a = [] := fun a ha => by
    simp [between, hnext a ha]
  have hwithin := endsWithin_of_acc hbetween hends
  rw [heads, headsWithin, if_neg (by simp [h])]
  refine List.flatMap_congr fun b hb => (headsWithin_succ (hwithin b ?_)).symm
  rwa [between_of_not_stop h]

/-! ## §3. The contraction. -/

/-- What is asked of the nodes that a search can meet: walks between stops end, and of the
successors of a node between stops only the last one has successors itself. -/
structure Narrow (next : α → List α) (stop : α → Bool) (S : α → Prop) : Prop where
  closed : ∀ a b, S a → b ∈ next a → S b
  ends : ∀ a, S a → Ends (between next stop) a
  leaves : ∀ a, S a → stop a = false → ∀ b ∈ (next a).dropLast, next b = []

/-- A head of a node is about to be visited: it is the head of a pending node further on, and what
is pending before that has no successors. -/
inductive Due (next : α → List α) (stop : α → Bool) (nodes : List α) (c h : α) : List α → Prop
  | here {a : α} {rest : List α}
      (hbelow : Relation.TransGen (fun a b => b ∈ between next stop a) c a)
      (hhead : h ∈ heads next stop nodes a) : Due next stop nodes c h (a :: rest)
  | later {a : α} {rest : List α} (hleaf : next a = []) (hdue : Due next stop nodes c h rest) :
      Due next stop nodes c h (a :: rest)

/-- What the successors of a node have for a head is due when they are pending. -/
theorem Due.of_flatMap {c h : α} {l rest : List α} (hleaves : ∀ b ∈ l.dropLast, next b = [])
    (hbelow : ∀ b ∈ l, Relation.TransGen (fun a b => b ∈ between next stop a) c b)
    (hhead : h ∈ l.flatMap (heads next stop nodes)) : Due next stop nodes c h (l ++ rest) := by
  induction l with
  | nil => exact absurd hhead List.not_mem_nil
  | cons b l ih =>
    rw [List.flatMap_cons, List.mem_append] at hhead
    rcases hhead with hhead | hhead
    · exact .here (hbelow b List.mem_cons_self) hhead
    · -- something follows, so `b` is not the last one
      cases l with
      | nil => exact absurd hhead List.not_mem_nil
      | cons b' l =>
        exact .later (hleaves b List.mem_cons_self)
          (ih (fun x hx => hleaves x (List.mem_cons_of_mem b hx))
            (fun x hx => hbelow x (List.mem_cons_of_mem b hx)) hhead)

variable {S : α → Prop}

/-- What holds of a search between two visits: a node between stops that was seen has no heads but
seen ones and some that are due. -/
structure Awaits (next : α → List α) (stop : α → Bool) (nodes : List α) (S : α → Prop)
    (pending seen : List α) : Prop where
  inPending : ∀ a ∈ pending, S a
  inSeen : ∀ c ∈ seen, S c
  due : ∀ c ∈ seen, stop c = false → ∀ h ∈ heads next stop nodes c,
    h ∈ seen ∨ Due next stop nodes c h pending

section Awaits

variable (hnext : ∀ a, a ∉ nodes → next a = []) (hS : Narrow next stop S) {a : α}
  {rest seen : List α} (hw : Awaits next stop nodes S (a :: rest) seen)
include hnext hS hw

/-- All heads of a pending node that was seen were seen. -/
theorem Awaits.heads_subset (ha : a ∈ seen) : heads next stop nodes a ⊆ seen := by
  intro h hh
  cases hstop : stop a with
  | true =>
    rw [heads_of_stop hstop, List.mem_singleton] at hh
    rwa [hh]
  | false =>
    rcases hw.due a ha hstop h hh with hmem | hlate
    · exact hmem
    · -- nothing of it is still to come, since no walk comes back to the node
      cases hlate with
      | here hbelow _ => exact absurd hbelow (hS.ends a (hw.inSeen a ha)).not_returns
      | later hleaf _ =>
        rw [heads_of_not_stop hnext (hS.ends a (hw.inSeen a ha)) hstop, hleaf] at hh
        exact absurd hh List.not_mem_nil

/-- What holds between visits holds after a node is passed over. -/
theorem Awaits.skip (ha : a ∈ seen) : Awaits next stop nodes S rest seen where
  inPending x hx := hw.inPending x (List.mem_cons_of_mem a hx)
  inSeen := hw.inSeen
  due c hc hstop h hh := by
    rcases hw.due c hc hstop h hh with hmem | hlate
    · exact Or.inl hmem
    · cases hlate with
      | here _ hhead => exact Or.inl (hw.heads_subset hnext hS ha hhead)
      | later _ hlate => exact Or.inr hlate

omit hnext hS in
/-- A stop that is visited is seen, and what was due after it is due. -/
theorem Awaits.due_of_stop (hstop : stop a = true) {c h : α} (hc : c ∈ a :: seen)
    (hcs : stop c = false) (hh : h ∈ heads next stop nodes c) :
    h ∈ a :: seen ∨ Due next stop nodes c h (next a ++ rest) := by
  -- the node taken now is a stop, so the other was seen before
  have hcseen : c ∈ seen := (List.mem_cons.1 hc).resolve_left fun hca => by
    rw [hca, hstop] at hcs
    cases hcs
  rcases hw.due c hcseen hcs h hh with hmem | hlate
  · exact Or.inl (List.mem_cons_of_mem a hmem)
  · cases hlate with
    | here _ hhead =>
      rw [heads_of_stop hstop, List.mem_singleton] at hhead
      exact Or.inl (hhead ▸ List.mem_cons_self)
    | later hleaf hlate => exact Or.inr (by rwa [hleaf])

/-- What a node between stops was to give, its successors give. -/
theorem Awaits.due_of_not_stop (hstop : stop a = false) {c h : α} (hc : c ∈ a :: seen)
    (hcs : stop c = false) (hh : h ∈ heads next stop nodes c) :
    h ∈ a :: seen ∨ Due next stop nodes c h (next a ++ rest) := by
  have hSa : S a := hw.inPending a List.mem_cons_self
  have heq := heads_of_not_stop hnext (hS.ends a hSa) hstop
  have hstep : ∀ b ∈ next a, b ∈ between next stop a := fun b hb => by
    rwa [between_of_not_stop hstop]
  -- the node itself, whose successors come next, or one seen before
  rcases List.mem_cons.1 hc with rfl | hc
  · rw [heq] at hh
    exact Or.inr (.of_flatMap (hS.leaves _ hSa hstop) (fun b hb => .single (hstep b hb)) hh)
  · rcases hw.due c hc hcs h hh with hmem | hlate
    · exact Or.inl (List.mem_cons_of_mem a hmem)
    · cases hlate with
      | here hbelow hhead =>
        rw [heq] at hhead
        exact Or.inr (.of_flatMap (hS.leaves a hSa hstop)
          (fun b hb => hbelow.tail (hstep b hb)) hhead)
      | later hleaf hlate => exact Or.inr (by rwa [hleaf])

theorem Awaits.visit : Awaits next stop nodes S (next a ++ rest) (a :: seen) where
  inPending x hx := by
    rcases List.mem_append.1 hx with hx | hx
    · exact hS.closed a x (hw.inPending a List.mem_cons_self) hx
    · exact hw.inPending x (List.mem_cons_of_mem a hx)
  inSeen := List.forall_mem_cons.2 ⟨hw.inPending a List.mem_cons_self, hw.inSeen⟩
  due c hc hcs h hh := by
    cases hstop : stop a with
    | true => exact hw.due_of_stop hstop hc hcs hh
    | false => exact hw.due_of_not_stop hnext hS hstop hc hcs hh

end Awaits

/-- The successors of stops in a search from stop to stop. -/
def leap (next : α → List α) (stop : α → Bool) (nodes : List α) (a : α) : List α :=
  (next a).flatMap (heads next stop nodes)

theorem leap_of_not_mem (hnext : ∀ a, a ∉ nodes → next a = []) (a : α) (h : a ∉ nodes) :
    leap next stop nodes a = [] := by
  simp [leap, hnext a h]

variable [DecidableEq α]

/-- Pending nodes that were all seen are dropped. -/
theorem search_append_of_subset {l rest seen : List α} (h : l ⊆ seen) :
    search next nodes (l ++ rest) seen = search next nodes rest seen := by
  induction l with
  | nil => rfl
  | cons a l ih =>
    obtain ⟨ha, hl⟩ := List.cons_subset.1 h
    rw [List.cons_append, search_cons_of_mem ha, ih hl]

/-- **The stops of a search are those of the search from stop to stop.**  By induction along the
search. -/
theorem filter_search_of_awaits (hnext : ∀ a, a ∉ nodes → next a = [])
    (hS : Narrow next stop S) (pending seen : List α) :
    Awaits next stop nodes S pending seen →
    ∀ passed, (∀ d, stop d = true → (d ∈ seen ↔ d ∈ passed)) →
      (search next nodes pending seen).filter stop
        = search (leap next stop nodes) nodes (pending.flatMap (heads next stop nodes)) passed := by
  -- along the search, with the stops that were passed
  induction pending, seen using search_induction hnext with
  | nil seen =>
    intro _ passed _
    rw [search_nil, List.flatMap_nil, search_nil, List.filter_nil]
  | seen a rest seen ha ih =>
    intro hw passed hpassed
    have hskip : heads next stop nodes a ⊆ passed := fun h hh =>
      (hpassed h (stop_of_mem_heads hh)).1 (hw.heads_subset hnext hS ha hh)
    rw [search_cons_of_mem ha, List.flatMap_cons, search_append_of_subset hskip]
    exact ih (hw.skip hnext hS ha) passed hpassed
  | visit a rest seen ha ih =>
    intro hw passed hpassed
    rw [search_cons_of_not_mem hnext ha, List.flatMap_cons]
    cases hstop : stop a with
    | true =>
      have hnot : a ∉ passed := fun hmem => ha ((hpassed a hstop).2 hmem)
      have hrest := ih (hw.visit hnext hS) (a :: passed) fun d hd => by
        rw [List.mem_cons, List.mem_cons, hpassed d hd]
      rw [List.filter_cons_of_pos hstop, hrest, heads_of_stop hstop, List.singleton_append,
        search_cons_of_not_mem (leap_of_not_mem hnext) hnot, List.flatMap_append]
      rfl
    -- a node that is no stop is replaced by its successors, which have its heads
    | false =>
      have heq := heads_of_not_stop hnext (hS.ends a (hw.inPending a List.mem_cons_self)) hstop
      rw [List.filter_cons_of_neg (by simp [hstop]), heq, ← List.flatMap_append]
      refine ih (hw.visit hnext hS) passed fun d hd => ?_
      have hda : d ≠ a := by
        rintro rfl
        rw [hstop] at hd
        cases hd
      rw [List.mem_cons, or_iff_right hda, hpassed d hd]

/-- **The stops of a search are met in the order of a search from stop to stop.** -/
theorem filter_order (hnext : ∀ a, a ∉ nodes → next a = []) (hS : Narrow next stop S)
    {roots : List α} (hroots : ∀ a ∈ roots, S a) :
    (order next nodes roots).filter stop
      = order (leap next stop nodes) nodes (roots.flatMap (heads next stop nodes)) := by
  rw [order_eq_search, order_eq_search]
  have hw : Awaits next stop nodes S roots [] :=
    ⟨hroots, fun _ hc => absurd hc List.not_mem_nil, fun _ hc => absurd hc List.not_mem_nil⟩
  exact filter_search_of_awaits hnext hS roots [] hw [] fun _ _ => Iff.rfl

/-! ## §4. Searches along a map. -/

variable {β : Type} [DecidableEq β] {f : α → β} {next' : β → List β} {nodes' : List β}

/-- **A map that respects edges takes one search to the other**, if it is injective on what the
search can meet. -/
theorem search_map (hnext : ∀ a, a ∉ nodes → next a = [])
    (hnext' : ∀ b, b ∉ nodes' → next' b = []) (hclosed : ∀ a b, S a → b ∈ next a → S b)
    (hinj : ∀ a b, S a → S b → f a = f b → a = b)
    (hedges : ∀ a, S a → next' (f a) = (next a).map f) (pending seen : List α) :
    (∀ a ∈ pending, S a) → (∀ a ∈ seen, S a) →
      search next' nodes' (pending.map f) (seen.map f) = (search next nodes pending seen).map f := by
  -- along the search on the left
  induction pending, seen using search_induction hnext with
  | nil seen =>
    intro _ _
    simp only [List.map_nil, search_nil]
  | seen a rest seen ha ih =>
    intro hpending hseen
    rw [List.map_cons, search_cons_of_mem (List.mem_map_of_mem ha), search_cons_of_mem ha]
    exact ih (fun x hx => hpending x (List.mem_cons_of_mem a hx)) hseen
  | visit a rest seen ha ih =>
    intro hpending hseen
    have hSa : S a := hpending a List.mem_cons_self
    -- a node that is new has a new image, since the renaming is one to one
    have hnot : f a ∉ seen.map f := by
      intro hmem
      obtain ⟨c, hc, hca⟩ := List.mem_map.1 hmem
      exact ha (hinj c a (hseen c hc) hSa hca ▸ hc)
    rw [List.map_cons, search_cons_of_not_mem hnext' hnot, search_cons_of_not_mem hnext ha,
      List.map_cons, hedges a hSa, ← List.map_append, ← List.map_cons]
    congr 1
    refine ih (fun x hx => ?_) (List.forall_mem_cons.2 ⟨hSa, hseen⟩)
    rcases List.mem_append.1 hx with hx | hx
    · exact hclosed a x hSa hx
    · exact hpending x (List.mem_cons_of_mem a hx)

/-- **A search is carried along by a renaming** that is one to one on what can be met. -/
theorem order_map (hnext : ∀ a, a ∉ nodes → next a = [])
    (hnext' : ∀ b, b ∉ nodes' → next' b = []) (hclosed : ∀ a b, S a → b ∈ next a → S b)
    (hinj : ∀ a b, S a → S b → f a = f b → a = b)
    (hedges : ∀ a, S a → next' (f a) = (next a).map f) {roots : List α}
    (hroots : ∀ a ∈ roots, S a) :
    order next' nodes' (roots.map f) = (order next nodes roots).map f := by
  rw [order_eq_search, order_eq_search]
  exact search_map hnext hnext' hclosed hinj hedges roots [] hroots
    fun _ ha => absurd ha List.not_mem_nil

end RpcSchema.Graph
