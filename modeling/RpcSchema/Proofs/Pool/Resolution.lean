/-
  RpcSchema.Proofs.Pool.Resolution
  ────────────────────────────────
  **WHERE REFERENCES LEAD.**

  A reference to a finished native hops to the result.  In a pool that is
  `Flat` a result that is itself a reference leads to a definite entry, or
  to itself and nowhere else; so a chain is two hops long at most, the
  budget of `resolve` is never met, and a reference resolves to what the
  native resolves to.

  Main statements: `resolve_reference` (a reference is as good as the
  result) and `refersTo_iff` (the container test follows exactly the steps
  of `inside`).
-/
import RpcSchema.Proofs.Graph.Traversal
import RpcSchema.Proofs.Pool.Growth
import RpcSchema.Pool.Resolve

namespace RpcSchema.Pool

variable {p q : Pool}

/-! ## §1. Hops. -/

/-- From a reference to the result of its native. -/
def Hop (p : Pool) (a b : EntryId) : Prop :=
  ∃ n, p.entry a = .reference n ∧ p.slot n = some (.done b)

theorem Hop.mono (hg : p.Grows q) {a b : EntryId} (h : p.Hop a b) : q.Hop a b := by
  obtain ⟨n, ha, hn⟩ := h
  exact ⟨n, by rw [hg.entry_of_ne_any (by simp [ha]), ha], hg.done n b hn⟩

/-- References lead from one entry to the other, in any number of hops. -/
def Leads (p : Pool) : EntryId → EntryId → Prop :=
  Relation.ReflTransGen p.Hop

theorem Leads.mono (hg : p.Grows q) {a b : EntryId} (h : p.Leads a b) : q.Leads a b := by
  induction h with
  | refl => exact .refl
  | tail _ hstep ih => exact ih.tail (hstep.mono hg)

/-- Resolution follows references, within any budget. -/
theorem leads_resolveWithin (p : Pool) (k : Nat) (id : EntryId) :
    p.Leads id (p.resolveWithin k id) := by
  induction k generalizing id with
  | zero => exact .refl
  | succ k ih =>
    unfold resolveWithin
    split
    · rename_i n hn
      split
      · rename_i target ht
        exact .head ⟨n, hn, ht⟩ (ih target)
      · exact .refl
    · exact .refl

/-- What is no reference resolves to itself. -/
theorem resolve_of_ne_reference {x : EntryId} (h : ∀ n, p.entry x ≠ .reference n) :
    p.resolve x = x := by
  apply resolve_of_not_reference
  cases he : p.entry x with
  | reference n => exact absurd he (h n)
  | _ => rfl

/-- An entry that has parts is no reference. -/
theorem resolve_of_mem_parts {x y : EntryId} (h : y ∈ (p.entry x).parts) : p.resolve x = x := by
  apply resolve_of_ne_reference
  intro n he
  rw [he] at h
  exact absurd h List.not_mem_nil

theorem leads_resolve (p : Pool) (id : EntryId) : p.Leads id (p.resolve id) := by
  rw [resolve_eq_resolveWithin]
  exact leads_resolveWithin p _ id

/-! ## §2. Flat pools. -/

/-- A result that is a reference to a finished native leads to no other reference. -/
def Flat (p : Pool) : Prop :=
  ∀ n m a b, p.slot n = some (.done a) → p.entry a = .reference m →
    p.slot m = some (.done b) → (p.entry b).isReference = true → b = a

/-- A reference that stands for itself. -/
theorem resolveWithin_self {m : NativeId} {a : EntryId} (ha : p.entry a = .reference m)
    (hm : p.slot m = some (.done a)) (k : Nat) : p.resolveWithin k a = a := by
  induction k with
  | zero => rfl
  | succ k ih =>
    unfold resolveWithin
    simp only [ha, hm]
    exact ih

/-- One hop is enough from a result. -/
theorem resolveWithin_done (hf : p.Flat) {n : NativeId} {a : EntryId}
    (hn : p.slot n = some (.done a)) (k : Nat) :
    p.resolveWithin (k + 1) a = p.resolveWithin 1 a := by
  unfold resolveWithin
  split
  · rename_i m hm
    split
    · rename_i b hb
      cases hr : (p.entry b).isReference with
      | false =>
        rw [resolveWithin_of_not_reference _ hr, resolveWithin_of_not_reference _ hr]
      | true =>
        -- a second reference is the first one again
        have hba := hf n m a b hn hm hb hr
        subst hba
        rw [resolveWithin_self hm hb, resolveWithin_self hm hb]
    · rfl
  · rfl

/-- **A reference to a finished native resolves to what the result resolves to.** -/
theorem resolve_reference (hf : p.Flat) {n : NativeId} {id a : EntryId}
    (hid : p.entry id = .reference n) (hn : p.slot n = some (.done a)) :
    p.resolve id = p.resolve a := by
  -- there is a slot, so the budget allows two hops
  have hslots : ∃ k, p.slots.length = k + 1 := by
    cases hs : p.slots with
    | nil => simp [slot, hs] at hn
    | cons x rest => exact ⟨rest.length, rfl⟩
  obtain ⟨k, hk⟩ := hslots
  rw [resolve_eq_resolveWithin, resolve_eq_resolveWithin, hk]
  show p.resolveWithin (k + 1 + 1) id = _
  unfold resolveWithin
  simp only [hid, hn]
  rw [resolveWithin_done hf hn k]
  exact (resolveWithin_done hf hn (k + 1)).symm

/-- What a chain of hops ends in is what it resolves to. -/
theorem resolve_eq_of_leads {a b : EntryId} (hf : p.Flat) (h : p.Leads a b) :
    p.resolve a = p.resolve b := by
  induction h with
  | refl => rfl
  | tail _ hbc ih =>
    obtain ⟨n, hb, hn⟩ := hbc
    rw [ih, resolve_reference hf hb hn]

/-! ## §3. The container test. -/

/-- The ids of a pool are those that were handed out. -/
theorem mem_ids {id : EntryId} : id ∈ p.ids ↔ p.Has id := by
  simp only [ids, List.mem_map, List.mem_range, Has]
  constructor
  · rintro ⟨i, hi, rfl⟩
    exact ⟨i, hi, rfl⟩
  · rintro ⟨i, hi, rfl⟩
    exact ⟨i, hi, rfl⟩

/-- There is nothing inside of what was not handed out. -/
theorem inside_of_not_mem_ids (n : NativeId) (id : EntryId) (h : id ∉ p.ids) :
    p.inside n id = [] := by
  by_cases he : p.entry id = .any
  · unfold inside
    simp only [he]
  · exact absurd (mem_ids.2 (has_of_entry_ne_any he)) h

/-- **The container test follows the steps of `inside` to a reference.** -/
theorem refersTo_iff {id : EntryId} {n : NativeId} :
    p.refersTo id n = true ↔
      ∃ e, Graph.Reaches (p.inside n) id e ∧ p.entry e = .reference n := by
  unfold refersTo
  simp only [List.any_eq_true, decide_eq_true_eq,
    Graph.mem_order_iff (inside_of_not_mem_ids n), List.mem_singleton, exists_eq_left]

/-- From a reference that leads to itself at most, nothing else is referred to. -/
theorem refersTo_reference_eq_false {x : EntryId} {n m : NativeId}
    (hx : p.entry x = .reference m) (hne : m ≠ n)
    (hself : ∀ b, p.slot m = some (.done b) → b = x) : p.refersTo x n = false := by
  -- inside the reference there is itself at most
  have hinside : ∀ y ∈ p.inside n x, y = x := by
    intro y hy
    unfold inside at hy
    simp only [hx, if_neg hne] at hy
    split at hy
    · rename_i b hb
      rw [List.mem_singleton.1 hy, hself b hb]
    · exact absurd hy List.not_mem_nil
  have hstay : ∀ y, Graph.Reaches (p.inside n) x y → y = x := by
    intro y hy
    induction hy with
    | refl => rfl
    | tail _ hstep ih =>
      rw [ih] at hstep
      exact hinside _ hstep
  cases hin : p.refersTo x n with
  | false => rfl
  | true =>
    obtain ⟨y, hy, hyn⟩ := refersTo_iff.1 hin
    rw [hstay y hy, hx] at hyn
    exact absurd (Entry.reference.inj hyn) hne

end RpcSchema.Pool
