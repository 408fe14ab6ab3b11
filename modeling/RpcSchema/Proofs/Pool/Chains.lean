/-
  RpcSchema.Proofs.Pool.Chains
  ────────────────────────────
  **EVERY CHAIN OF REFERENCES IS FOLLOWED TO ITS END.**

  A reference to a finished native hops to its result, which may be a
  reference again.  A chain of hops that does not run into a cycle passes
  no native twice, for a native hops to one result only; and every native
  that it passes has a slot.  So it has no more hops than there are slots,
  and the budget of `resolve`, which is one more, is never met.

  What is done stays done until the native is begun or finished again.  An
  entry that resolves to no reference resolves to the same one as long as
  that happens to no native on its chain.

  Main statements: `resolve_eq_of_leads_ends` (where a chain ends is what
  its entries resolve to) and `resolve_reaches_end`.
-/
import Mathlib.Data.List.Nodup
import RpcSchema.Proofs.Graph.Cycle
import RpcSchema.Proofs.Pool.Operations
import RpcSchema.Proofs.Pool.Resolution

namespace RpcSchema.Pool

variable {p : Pool} {a b c : EntryId} {n : NativeId} {passed : List NativeId}

/-! ## §1. Chains. -/

/-- From `a` references lead over the finished natives `passed` to `b`. -/
inductive Chain (p : Pool) : EntryId → List NativeId → EntryId → Prop
  | nil (a : EntryId) : Chain p a [] a
  | cons {a b c : EntryId} {n : NativeId} {passed : List NativeId} (ha : p.entry a = .reference n)
      (hn : p.slot n = some (.done b)) (hrest : Chain p b passed c) : Chain p a (n :: passed) c

/-- Not a reference to a finished native. -/
def Ends (p : Pool) (a : EntryId) : Prop :=
  ∀ b, ¬ p.Hop a b

/-- Finished references do not lead into a cycle. -/
def Acyclic (p : Pool) (a : EntryId) : Prop :=
  ∀ b, p.Leads a b → ¬ Relation.TransGen p.Hop b b

/-- A hop leads to one entry. -/
theorem Hop.unique (a b c : EntryId) (hb : p.Hop a b) (hc : p.Hop a c) : b = c := by
  obtain ⟨n, ha, hn⟩ := hb
  obtain ⟨m, ha', hm⟩ := hc
  obtain rfl : n = m := Entry.reference.inj (ha.symm.trans ha')
  cases hn.symm.trans hm
  rfl

theorem ends_iff : p.Ends a ↔ ∀ n, p.entry a = .reference n → ∀ b, p.slot n ≠ some (.done b) := by
  unfold Ends Hop
  grind

theorem ends_of_not_reference (h : (p.entry a).isReference = false) : p.Ends a := by
  rintro b ⟨n, ha, _⟩
  rw [ha] at h
  cases h

theorem Chain.leads (h : p.Chain a passed b) : p.Leads a b := by
  induction h with
  | nil a => exact .refl
  | cons ha hn _ ih => exact .head ⟨_, ha, hn⟩ ih

/-- A native on a chain is finished, with an entry on the chain. -/
theorem Chain.exists_hop (h : p.Chain a passed c) (hn : n ∈ passed) :
    ∃ x b, p.Leads a x ∧ p.entry x = .reference n ∧ p.slot n = some (.done b) := by
  induction h with
  | nil a => exact absurd hn List.not_mem_nil
  | @cons a b c m passed ha hm _ ih =>
    rcases List.mem_cons.1 hn with rfl | hn
    · exact ⟨a, b, .refl, ha, hm⟩
    · obtain ⟨x, y, hx, hentry, hslot⟩ := ih hn
      exact ⟨x, y, .head ⟨m, ha, hm⟩ hx, hentry, hslot⟩

/-- **Without a cycle a chain passes no native twice**: its result would be met again. -/
theorem Chain.nodup (h : p.Chain a passed c) (hacyclic : p.Acyclic a) : passed.Nodup := by
  induction h with
  | nil a => exact List.nodup_nil
  | @cons a b c n passed ha hn hrest ih =>
    have hstep : p.Hop a b := ⟨n, ha, hn⟩
    refine List.nodup_cons.2 ⟨fun hmem => ?_, ih fun x hx => hacyclic x (.head hstep hx)⟩
    -- a place that comes again closes a cycle
    obtain ⟨x, y, hx, hentry, hslot⟩ := hrest.exists_hop hmem
    obtain rfl : b = y := by
      cases hn.symm.trans hslot
      rfl
    exact hacyclic b (.single hstep) (.tail' hx ⟨n, hentry, hslot⟩)

/-- A chain without a cycle has no more hops than there are slots. -/
theorem Chain.length_le (h : p.Chain a passed c) (hacyclic : p.Acyclic a) :
    passed.length ≤ p.slots.length := by
  have hsubset : ∀ n ∈ passed, n ∈ p.slots.map (·.1) := by
    intro n hn
    obtain ⟨_, _, _, _, hslot⟩ := h.exists_hop hn
    by_contra hnot
    rw [slot, Sequence.lookup_eq_none_iff.2 hnot] at hslot
    cases hslot
  have hle := (h.nodup hacyclic).length_le_of_subset hsubset
  rwa [List.length_map] at hle

/-! ## §2. The end of a chain. -/

/-- The walk within a budget goes along a chain, and ends early only where the chain does. -/
theorem chain_resolveWithin (p : Pool) (k : Nat) (a : EntryId) :
    ∃ passed, p.Chain a passed (p.resolveWithin k a) ∧ passed.length ≤ k ∧
      (passed.length < k → p.Ends (p.resolveWithin k a)) := by
  -- on the hops that are left
  induction k generalizing a with
  | zero => exact ⟨[], .nil a, Nat.le_refl 0, fun h => absurd h (Nat.lt_irrefl 0)⟩
  | succ k ih =>
    unfold resolveWithin
    split
    · rename_i n ha
      split
      · rename_i b hn
        obtain ⟨passed, hchain, hle, hends⟩ := ih b
        refine ⟨n :: passed, .cons ha hn hchain, Nat.succ_le_succ hle, fun h => hends ?_⟩
        exact Nat.lt_of_succ_lt_succ h
      · rename_i hnot
        refine ⟨[], .nil a, Nat.zero_le _, fun _ => ends_iff.2 fun m hm b hb => ?_⟩
        obtain rfl : n = m := Entry.reference.inj (ha.symm.trans hm)
        exact hnot b hb
    · -- no reference at all
      rename_i hnot
      exact ⟨[], .nil a, Nat.zero_le _, fun _ => ends_iff.2 fun m hm => absurd hm (hnot m)⟩

/-- A chain that ends is walked within as many steps as it has hops. -/
theorem Chain.resolveWithin_eq (h : p.Chain a passed b) (hb : p.Ends b) {k : Nat}
    (hk : passed.length ≤ k) : p.resolveWithin k a = b := by
  -- on the chain, with one hop for each native that it passes
  induction h generalizing k with
  | nil a =>
    cases k with
    | zero => rfl
    | succ k =>
      unfold resolveWithin
      split
      · rename_i n ha
        split
        · rename_i target hn
          exact absurd hn (ends_iff.1 hb n ha target)
        · rfl
      · rfl
  | cons ha hn _ ih =>
    obtain ⟨k, rfl⟩ : ∃ j, k = j + 1 := ⟨k - 1, by rw [List.length_cons] at hk; omega⟩
    unfold resolveWithin
    simp only [ha, hn]
    exact ih hb (Nat.le_of_succ_le_succ hk)

/-- **A chain without a cycle is followed to its end.** -/
theorem Acyclic.exists_chain (h : p.Acyclic a) :
    ∃ passed, p.Chain a passed (p.resolve a) ∧ p.Ends (p.resolve a) := by
  rw [resolve_eq_resolveWithin]
  obtain ⟨passed, hchain, _, hends⟩ := p.chain_resolveWithin (p.slots.length + 1) a
  exact ⟨passed, hchain, hends (Nat.lt_succ_of_le (hchain.length_le h))⟩

/-- What leads to an end does not lead into a cycle. -/
theorem acyclic_of_leads_ends (h : p.Leads a b) (hb : p.Ends b) : p.Acyclic a := by
  intro x hx hcycle
  -- the end would be on the cycle, and lead on
  have hxb : p.Leads x b := by
    rcases Relation.ReflTransGen.total_of_right_unique Hop.unique hx h with hxb | hbx
    · exact hxb
    · rcases Relation.ReflTransGen.cases_head hbx with rfl | ⟨y, hby, _⟩
      · exact .refl
      · exact absurd hby (hb y)
  have hback := Graph.cycle_of_reaches Hop.unique hcycle hxb
  obtain ⟨y, hby, _⟩ := Relation.TransGen.head'_iff.1 hback
  exact hb y hby

/-- **What leads to an end resolves to it.** -/
theorem resolve_eq_of_leads_ends (h : p.Leads a b) (hb : p.Ends b) : p.resolve a = b := by
  obtain ⟨_, hchain, hends⟩ := (acyclic_of_leads_ends h hb).exists_chain
  exact Graph.end_unique Hop.unique hchain.leads h hends hb

/-! ## §3. Chains that last. -/

/-- The cache has one slot per native. -/
theorem nodup_slots_call (h : (p.slots.map (·.1)).Nodup) (c : Call) :
    ((p.call c).2.slots.map (·.1)).Nodup := by
  have hfilter : ∀ n : NativeId, ((p.slots.filter (·.1 ≠ n)).map (·.1)).Nodup := fun n =>
    h.sublist (List.filter_sublist.map _)
  -- the old slot of a native is removed before the new one is put in front
  have hset : ∀ (n : NativeId) (s : Slot), ((p.setSlot n s).slots.map (·.1)).Nodup := by
    intro n s
    refine List.nodup_cons.2 ⟨fun hmem => ?_, hfilter n⟩
    obtain ⟨x, hx, hxn⟩ := List.mem_map.1 hmem
    simpa [hxn] using (List.mem_filter.1 hx).2
  have hintern : ∀ e, ((p.intern e).2.slots.map (·.1)).Nodup := by
    intro e
    rcases p.intern_cases e with ⟨_, _, _, he⟩ | ⟨_, he⟩ <;> rwa [he]
  cases c with
  | optional of => exact hintern _
  | array of => exact hintern _
  | map key value => exact hintern _
  | define d => exact h
  | lookup n =>
    show ((p.lookup n).2.slots.map (·.1)).Nodup
    rcases p.lookup_cases n with ⟨_, hl⟩ | ⟨_, _, hl⟩ | ⟨_, hl⟩
    · rwa [hl]
    · rwa [hl]
    · rw [hl]
      exact hintern _
  | begin n => exact hset n _
  | finish n id => exact hset n _
  | abandon n =>
    show ((p.abandon n).slots.map (·.1)).Nodup
    unfold abandon
    split
    · exact hfilter n
    · exact h

/-- After any calls a native has one slot at most. -/
theorem nodup_slots_after (h : (p.slots.map (·.1)).Nodup) (calls : List Call) :
    ((p.after calls).slots.map (·.1)).Nodup := by
  induction calls generalizing p with
  | nil => exact h
  | cons c rest ih => exact ih (nodup_slots_call h c)

/-- **A chain lasts** as long as none of its natives is begun or finished again. -/
theorem Chain.after (h : p.Chain a passed b) {later : List Call}
    (hquiet : ∀ n ∈ passed, ∀ c ∈ later, c.slotOf? n = none) :
    (p.after later).Chain a passed b := by
  induction h with
  | nil a => exact .nil a
  | @cons a b c n passed ha hn _ ih =>
    refine .cons ?_ (slot_after_of_done (hquiet n List.mem_cons_self) hn)
      (ih fun m hm => hquiet m (List.mem_cons_of_mem n hm))
    rw [(p.extends_after later).entry_eq a (has_of_entry_ne_any (by simp [ha])), ha]

/-- **Every type is resolved to the end of its chain, and stays so.**

In a pool reached by any calls, let a type be one from which finished references do not lead into a
cycle.  Then a chain of references leads from it to what it resolves to.  The chain passes no native
twice, so it has at most as many hops as the cache has slots, one for each native, and no budget of
that many hops or more takes the walk further.  There the chain ends: what the type resolves to is no
reference to a finished native, and to resolve it again changes nothing.

Let a type be one that resolves to an entry other than a reference.  Then it resolves to the same
one after all calls that neither begin nor finish a native on its chain again. -/
theorem resolve_reaches_end (calls : List Call) (id : EntryId) :
    let p := start.after calls
    ((∀ a, p.Leads id a → ¬ Relation.TransGen p.Hop a a) →
      (p.slots.map (·.1)).Nodup ∧
      (∃ passed, p.Chain id passed (p.resolve id) ∧ passed.Nodup ∧
        passed.length ≤ p.slots.length ∧
        ∀ budget ≥ passed.length, p.resolveWithin budget id = p.resolve id) ∧
      (∀ n, p.entry (p.resolve id) = .reference n → ∀ a, p.slot n ≠ some (.done a)) ∧
      p.resolve (p.resolve id) = p.resolve id) ∧
    (∀ passed later, p.Chain id passed (p.resolve id) → p.Has (p.resolve id) →
      (p.entry (p.resolve id)).isReference = false →
      (∀ n ∈ passed, ∀ c ∈ later, c.slotOf? n = none) →
        (p.after later).resolve id = p.resolve id) := by
  intro p
  have hslots : (start.slots.map (·.1)).Nodup := List.nodup_nil
  constructor
  · intro hacyclic
    -- no native is passed twice, so the chain is no longer than the list of slots
    obtain ⟨passed, hchain, hends⟩ := Acyclic.exists_chain hacyclic
    refine ⟨nodup_slots_after hslots calls, ⟨passed, hchain, hchain.nodup hacyclic,
      hchain.length_le hacyclic, fun budget hbudget => ?_⟩, ends_iff.1 hends, ?_⟩
    · exact hchain.resolveWithin_eq hends hbudget
    · exact resolve_eq_of_leads_ends .refl hends
  · intro passed later hchain hhas hend hquiet
    -- the slots of the chain are not touched, and the entries never are
    refine resolve_eq_of_leads_ends (hchain.after hquiet).leads (ends_of_not_reference ?_)
    rw [(p.extends_after later).entry_eq _ hhas]
    exact hend

/-- An alias: the inner native is finished with a reference to the outer one, and given up later,
which changes nothing. -/
theorem resolve_reaches_end_alias :
    let calls : List Call := [.begin (.entry 21), .begin (.entry 22), .lookup (.entry 21),
      .lookup (.entry 22), .finish (.entry 22) (.entry 9), .define (.message "Outer" []),
      .finish (.entry 21) (.entry 11)]
    let later : List Call := [.abandon (.entry 22), .begin (.entry 23), .lookup (.entry 23)]
    (start.after calls).resolve ((start.after calls).resolve (.entry 10))
        = (start.after calls).resolve (.entry 10) ∧
      (start.after calls).resolve (.entry 10) = .entry 11 ∧
      ((start.after calls).after later).resolve (.entry 10) = .entry 11 := by
  intro calls later
  -- the calls are run, and the chain is read off the pool they leave
  have hpool : start.after calls =
      ⟨start.entries ++ #[.reference (.entry 21), .reference (.entry 22),
          .definition (.message "Outer" [])],
        [(.entry 21, .done (.entry 11)), (.entry 22, .done (.entry 9))]⟩ := by
    decide +kernel
  have hchain : (start.after calls).Chain (.entry 10) [.entry 22, .entry 21] (.entry 11) := by
    rw [hpool]
    exact .cons (b := .entry 9) (by decide) (by decide) (.cons (by decide) (by decide) (.nil _))
  have hends : (start.after calls).Ends (.entry 11) :=
    ends_of_not_reference (by rw [hpool]; decide)
  have hresolve := resolve_eq_of_leads_ends hchain.leads hends
  obtain ⟨hacyclic, hlasts⟩ := resolve_reaches_end calls (.entry 10)
  obtain ⟨_, _, _, htwice⟩ := hacyclic (acyclic_of_leads_ends hchain.leads hends)
  refine ⟨htwice, hresolve, ?_⟩
  rw [hresolve] at hlasts
  refine hlasts [.entry 22, .entry 21] later hchain ⟨11, ?_, rfl⟩ ?_ (by decide)
  · rw [hpool]
    decide
  · rw [hpool]
    decide

end RpcSchema.Pool
