/-
  RpcSchema.Proofs.Conversion.Grounded
  ────────────────────────────────────
  **WHAT HOLDS OF A POOL AFTER CONVERSIONS THAT FAILED.**

  A conversion that fails leaves more than it found: what was finished
  inside stays finished, although it may refer to natives that have given
  their slots up.  Such a pool is not sound any more.  What is left is
  `Grounded`:

    • a finished native is built from parts that stand for its parts;
    • only natives that lead to themselves are referred to;
    • a named container was closed by a message only if it leads to itself.

  Main statement: `stable_grounded` — every step keeps pools grounded.
-/
import RpcSchema.Proofs.Conversion.Invariant
import RpcSchema.Proofs.Conversion.Keeping

namespace RpcSchema.Source

variable (s : Source)

/-- What holds of a pool between two steps of a conversion, whatever failed before. -/
structure Grounded (p : Pool) : Prop where
  base : p.Based
  /-- Basic kinds need no slot. -/
  basic : ∀ n, s.IsBasic n → p.slot n = none
  /-- A result is an entry of the pool. -/
  has : ∀ n t, p.slot n = some (.done t) → p.Has t
  built : ∀ n t, p.slot n = some (.done t) → s.Built p n t
  /-- Only natives that lead to themselves are referred to. -/
  cyclic : ∀ id n, p.entry id = .reference n → s.Cyclic n
  /-- A named container passes on the conversion of its shape, unless it leads to itself. -/
  closed : ∀ n decl shape t, s.Declares n decl shape → shape.isContainer = true →
    p.slot n = some (.done t) → s.Stands p decl.underlying t ∨ s.Cyclic n

variable {s} {n m : NativeId} {p q r r' : Pool} {t : EntryId}

/-- The first pool is grounded: it has no slots and no references. -/
theorem grounded_start : s.Grounded Pool.start where
  base := Pool.based_start
  basic _ _ := rfl
  has _ _ h := by cases h
  built _ _ h := by cases h
  cyclic id n h := by simpa [h, Entry.isInterned] using isInterned_entry_start id
  closed _ _ _ _ _ _ h := by cases h

/-- A pool stays grounded while nothing is finished, and only natives that lead to themselves are
referred to. -/
theorem Grounded.extend (hp : s.Grounded p) (hg : p.Grows q)
    (hbasic : ∀ n, s.IsBasic n → q.slot n = none)
    (hdone : ∀ n t, q.slot n = some (.done t) → p.slot n = some (.done t))
    (hnew : ∀ id n, q.entry id = .reference n → p.entry id = .reference n ∨ s.Cyclic n) :
    s.Grounded q where
  base := hp.base.mono hg
  basic := hbasic
  has n t h := hg.has (hp.has n t (hdone n t h))
  built n t h := (hp.built n t (hdone n t h)).mono hg
  cyclic id n h := (hnew id n h).elim (hp.cyclic id n) fun hc => hc
  closed n decl shape t hn hc h :=
    (hp.closed n decl shape t hn hc (hdone n t h)).imp_left fun hst => hst.mono hg

/-- A pool stays grounded when a native is begun. -/
theorem Grounded.begin (hp : s.Grounded p) (hb : ¬ s.IsBasic n) (hslot : p.slot n = none) :
    s.Grounded (p.begin n) := by
  refine hp.extend (Pool.Grows.begin hslot) (fun m hm => ?_) (fun m t h => ?_) fun id m h => ?_
  · have hmn : m ≠ n := fun h => hb (h ▸ hm)
    rw [Pool.slot_begin_of_ne hmn]
    exact hp.basic m hm
  · -- what is begun is not done
    by_cases hmn : m = n
    · rw [hmn, Pool.slot_begin_self] at h
      cases h
    · rwa [Pool.slot_begin_of_ne hmn] at h
  · exact Or.inl (by rwa [Pool.entry_begin] at h)

/-- A reference may be added to a native that is on a cycle. -/
theorem Grounded.refer (hp : s.Grounded p) (hc : s.Cyclic n) :
    s.Grounded (p.intern (.reference n)).2 := by
  refine hp.extend (Pool.Grows.intern p _) (fun m hm => ?_) (fun m t h => ?_) fun id m h => ?_
  · rw [Pool.slot_intern]
    exact hp.basic m hm
  · rwa [Pool.slot_intern] at h
  · -- the only new reference is the one that is added
    by_cases hid : id = (p.intern (.reference n)).1
    · rw [hid, Pool.entry_intern] at h
      exact Or.inr (Entry.reference.inj h ▸ hc)
    · exact Or.inl (by rwa [Pool.entry_intern_of_ne p _ hid] at h)

/-- A pool stays grounded when a native is given up. -/
theorem Grounded.abandon (hp : s.Grounded p) (n : NativeId) : s.Grounded (p.abandon n) := by
  -- a slot is given up or stays as it is
  have hslot : ∀ m, (p.abandon n).slot m = none ∨ (p.abandon n).slot m = p.slot m := by
    intro m
    by_cases hmn : m = n
    · rw [hmn, Pool.slot_abandon_self]
      split
      · exact Or.inl rfl
      · exact Or.inr rfl
    · exact Or.inr (Pool.slot_abandon_of_ne hmn)
  refine hp.extend (Pool.Grows.abandon p n) (fun m hm => ?_) (fun m t h => ?_) fun id m h => ?_
  · rcases hslot m with hm' | hm'
    · exact hm'
    · rw [hm', hp.basic m hm]
  · rcases hslot m with hm' | hm'
    · rw [hm'] at h
      cases h
    · rwa [hm'] at h
  · exact Or.inl (by rwa [Pool.entry_abandon] at h)

/-- A native that its shape refers to leads to itself. -/
theorem Grounded.cyclic_of_refersTo (hp : s.Grounded p) (h : p.refersTo t n = true) :
    s.Cyclic n := by
  obtain ⟨id, _, hid⟩ := Pool.refersTo_iff.1 h
  exact hp.cyclic id n hid

section Finish

variable {parts : List EntryId} {inner : List NativeId}

/-- **A pool stays grounded when a native is finished.** -/
theorem Grounded.finish (hr : s.Grounded r) (hb : ¬ s.IsBasic n)
    (hparts : s.Converts (s.edges n) (p.begin n) inner parts r)
    (ht : s.Assembles n r parts t r') : s.Grounded (r'.finish n t) := by
  have hin : r.slot n = some .inProgress := hparts.advances.slot_begun
  have hg : r.Grows (r'.finish n t) := grows_finish ht hin
  have hstands : List.Forall₂ (s.Stands r) (s.edges n) parts :=
    hparts.returned.imp fun _ _ h => h.stands
  -- each result is the one of now or an old one
  refine ⟨hr.base.mono hg, fun m hm => ?_, fun m id => has_finish hparts ht hr.base hr.has,
    fun m id => built_finish hparts ht hr.base hr.has hr.built, fun id m h => ?_,
    fun m decl shape id hm hc h => ?_⟩
  · have hmn : m ≠ n := fun h => hb (h ▸ hm)
    rw [Pool.slot_finish_of_ne hmn, ht.slot_eq]
    exact hr.basic m hm
  · rw [Pool.entry_finish] at h
    exact hr.cyclic id m (ht.entry_of_reference hr.base h)
  · -- a container stands for its shape, or its message was needed because it is on a cycle
    rcases slot_finish_cases ht h with ⟨rfl, rfl⟩ | ⟨_, hm'⟩
    · obtain ⟨x, rfl, _, ⟨_, rfl, _⟩ | ⟨hrefers, _⟩⟩ := ht.of_container hm hc
      · rw [edges_container hm hc] at hstands
        exact Or.inl ((List.forall₂_cons.1 hstands).1.mono hg)
      · exact Or.inr (hr.cyclic_of_refersTo hrefers)
    · exact (hr.closed m decl shape id hm hc hm').imp_left fun hst => hst.mono hg

end Finish

/-- A definition may be added to a grounded pool. -/
theorem Grounded.define (hp : s.Grounded p) (d : Definition) : s.Grounded (p.define d).2 := by
  refine hp.extend (Pool.Grows.push p _) hp.basic (fun _ _ h => h) fun id n h => Or.inl ?_
  by_cases hid : id = (p.define d).1
  · rw [hid, Pool.define, Pool.entry_push] at h
    cases h
  · rwa [Pool.define, Pool.entry_push_of_ne p _ hid] at h

/-- **Every step keeps pools grounded.** -/
theorem stable_grounded (s : Source) : s.Stable s.Grounded where
  begin hp hb hslot := hp.begin hb hslot
  refer hp _ hc := hp.refer hc
  finish hr hb _ hparts ht := hr.finish hb hparts ht
  abandon hr _ := hr.abandon _

/-- **After any conversions from the first pool it is grounded.** -/
theorem grounded_poolAfter (s : Source) (history : List NativeId) :
    s.Grounded (s.poolAfter history) :=
  s.stable_grounded.after history (fun n h => by cases h) grounded_start

/-! ## §2. What is left of a finished native. -/

/-- Every part of a finished native has an entry that stands for it. -/
theorem Built.stands_part (h : s.Built p n t) (hm : m ∈ s.edges n) : ∃ x, s.Stands p m x := by
  -- each way to be built lists the results of the parts, in the order of the edges
  cases h with
  | pointer hn ht =>
    rw [edges_pointer hn, List.mem_singleton] at hm
    exact ⟨t, hm ▸ ht⟩
  | slice hn _ hx =>
    rw [edges_slice hn, List.mem_singleton] at hm
    exact ⟨_, hm ▸ hx⟩
  | map hn _ hx hy _ =>
    rw [edges_map hn, List.mem_cons, List.mem_singleton] at hm
    rcases hm with rfl | rfl
    · exact ⟨_, hx⟩
    · exact ⟨_, hy⟩
  | any hn hempty => exact absurd hm (by simp [edges_any hn hempty])
  | error hn => exact absurd hm (by simp [edges_error hn])
  | struct hn _ hids =>
    rw [edges_struct hn] at hm
    obtain ⟨x, _, hx⟩ := exists_right_of_mem hids hm
    exact ⟨x, hx⟩
  | interface hn _ _ hids =>
    rw [edges_interface hn] at hm
    obtain ⟨x, _, hx⟩ := exists_right_of_mem hids hm
    exact ⟨x, hx⟩
  | enum hn => exact absurd hm (by simp [edges_enumerable hn])
  | scalar hn => exact absurd hm (by simp [edges_enumerable hn])
  | through hn hc ht =>
    rw [edges_container hn hc, List.mem_singleton] at hm
    exact ⟨t, hm ▸ ht⟩
  | lifted hn hc _ hx _ =>
    rw [edges_container hn hc, List.mem_singleton] at hm
    exact ⟨_, hm ▸ hx⟩

end RpcSchema.Source
