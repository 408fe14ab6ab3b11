/-
  RpcSchema.Proofs.Conversion.Keeping
  ───────────────────────────────────
  **WHAT EVERY STEP KEEPS, EVERY HISTORY KEEPS.**

  A conversion changes the pool in four ways: it begins a native without a
  slot, it refers to a native in progress, it finishes a native that its
  parts were assembled to, and it gives a native up.  A property of pools
  that these keep is `Stable`, and holds after any number of conversions,
  whether they succeed or fail.

  A native in progress leads to everything that is converted while it is;
  so only natives that lead to themselves are ever referred to.

  Main statements: `Converts.keeps`, `Breaks.keeps` and `Stable.after`.
-/
import RpcSchema.Proofs.Conversion.Failure
import RpcSchema.Proofs.Graph.Traversal

namespace RpcSchema.Source

open Conversion

variable (s : Source)

/-! ## §1. Natives under way. -/

/-- From a native to the ones its conversion asks for. -/
def Asks (n m : NativeId) : Prop :=
  m ∈ s.edges n

/-- A native that leads to itself. -/
def Cyclic (n : NativeId) : Prop :=
  Relation.TransGen s.Asks n n

/-- Each native in progress leads to each of the natives `ns`. -/
def Under (p : Pool) (ns : List NativeId) : Prop :=
  ∀ k, p.slot k = some .inProgress → ∀ n ∈ ns, Relation.TransGen s.Asks k n

variable {s} {n : NativeId} {ns : List NativeId} {p q r : Pool}

theorem Under.head (h : s.Under p (n :: ns)) (hslot : p.slot n = some .inProgress) :
    s.Cyclic n :=
  h n hslot n List.mem_cons_self

theorem Under.tail (h : s.Under p (n :: ns)) : s.Under p ns :=
  fun k hk m hm => h k hk m (List.mem_cons_of_mem n hm)

/-- The natives in progress are the same after a run. -/
theorem Under.advance (h : s.Under p ns) (ha : p.Advances q) : s.Under q ns :=
  fun k hk => h k (ha.inProgress_before hk)

/-- A native that is begun leads to its parts, and what was in progress leads to it. -/
theorem Under.begin (h : s.Under p (n :: ns)) : s.Under (p.begin n) (s.edges n) := by
  intro k hk m hm
  by_cases hkn : k = n
  · rw [hkn]
    exact .single hm
  · rw [Pool.slot_begin_of_ne hkn] at hk
    exact (h k hk n List.mem_cons_self).tail hm

theorem under_of_ended (h : ∀ n, p.slot n ≠ some .inProgress) (ns : List NativeId) :
    s.Under p ns :=
  fun k hk => absurd hk (h k)

/-! ## §2. Runs. -/

variable (s)

/-- Each change that a conversion makes to a pool keeps the property. -/
structure Stable (I : Pool → Prop) : Prop where
  begin : ∀ {p : Pool} {n}, I p → ¬ s.IsBasic n → p.slot n = none → I (p.begin n)
  refer : ∀ {p : Pool} {n}, I p → ¬ s.IsBasic n → s.Cyclic n → I (p.intern (.reference n)).2
  finish : ∀ {p r r' : Pool} {n t inner parts}, I r → ¬ s.IsBasic n → p.slot n = none →
    s.Converts (s.edges n) (p.begin n) inner parts r → s.Assembles n r parts t r' →
    I (r'.finish n t)
  abandon : ∀ {r : Pool} {n}, I r → r.slot n = some .inProgress → I (r.abandon n)

variable {s} {I : Pool → Prop}

/-- **A run that succeeds keeps what every step keeps.** -/
theorem Converts.keeps {met : List NativeId} {ids : List EntryId}
    (h : s.Converts ns p met ids q) (hI : s.Stable I) (hunder : s.Under p ns) (hp : I p) :
    I q := by
  induction h with
  | nil p => exact hp
  | basic _ _ _ ih => exact ih hunder.tail hp
  | known _ _ _ ih => exact ih hunder.tail hp
  | pending hb hslot _ ih =>
    exact ih (hunder.tail.advance (Pool.Advances.intern _ _))
      (hI.refer hp hb (hunder.head hslot))
  -- through the parts, then through the end of the native, then along the list
  | @fresh n t ns p r r' inner parts met ids q hb hslot hparts ht _ ihparts ihrest =>
    have hr : I r := ihparts hunder.begin (hI.begin hp hb hslot)
    have hadv : p.Advances (r'.finish n t) :=
      Pool.Advances.finish hslot hparts.advances ht.advances.toGrows ht.slot_eq
    exact ihrest (hunder.tail.advance hadv) (hI.finish hr hb hslot hparts ht)

/-- **A run that fails keeps what every step keeps.** -/
theorem Breaks.keeps {c : CompileError} (h : s.Breaks ns p c q) (hI : s.Stable I)
    (hunder : s.Under p ns) (hp : I p) : I q := by
  induction h with
  | scalar => exact hp
  -- the first native is converted by itself
  | @later n t ns p met r c q hfirst _ ih =>
    have hone : s.Under p [n] := by
      intro k hk m hm
      rw [List.mem_singleton.1 hm]
      exact hunder k hk n List.mem_cons_self
    exact ih (hunder.tail.advance hfirst.advances) (hfirst.keeps hI hone hp)
  | part hb hslot hparts ih =>
    exact hI.abandon (ih hunder.begin (hI.begin hp hb hslot)) hparts.advances.slot_begun
  | refused hb hslot hparts _ =>
    exact hI.abandon (hparts.keeps hI hunder.begin (hI.begin hp hb hslot))
      hparts.advances.slot_begun

/-! ## §3. Histories. -/

/-- A conversion that succeeds is a run. -/
theorem converts_of_convert {t : EntryId} (h : (s.convert n).Yields p t q) :
    ∃ met, s.Converts [n] p met [t] q :=
  converts_of_yields s.budget _ _ _ _
    (yields_mapM_cons.2 ⟨t, q, [], h, yields_mapM_nil.2 ⟨rfl, rfl⟩, rfl⟩)

/-- A conversion that fails is a run that fails. -/
theorem breaks_of_convert {c : CompileError} (h : (s.convert n).FailsWith p c q) :
    s.Breaks [n] p c q :=
  breaks_of_failsWith s.budget _ _ _ _ (s.length_unmet_lt_budget p)
    (failsWith_mapM_cons.2 (Or.inl h))

/-- The pool of a converter after some conversions, whether they succeeded or failed. -/
def poolAfter (s : Source) (history : List NativeId) : Pool :=
  s.after Pool.start (history.map .convert)

theorem ended_poolAfter (s : Source) (history : List NativeId) (n : NativeId) :
    (s.poolAfter history).slot n ≠ some .inProgress :=
  s.ended_after _ n

/-- **Whatever was converted before, and whether it failed, what every step keeps still holds.** -/
theorem Stable.after (hI : s.Stable I) (history : List NativeId)
    (hended : ∀ n, p.slot n ≠ some .inProgress) (hp : I p) :
    I (s.after p (history.map .convert)) := by
  induction history generalizing p with
  | nil => exact hp
  | cons n history ih =>
    rw [List.map_cons, after_cons, outcome_call_convert]
    have hunder : s.Under p [n] := under_of_ended hended _
    -- either way the next conversion finds none under way
    rcases yields_or_failsWith (s.convert n) p with ⟨t, q, h⟩ | ⟨c, q, h⟩
    · obtain ⟨met, hrun⟩ := converts_of_convert h
      rw [show (s.convert n).outcome p = (.ok t, q) from h]
      exact ih (fun m hm => hended m (hrun.advances.inProgress_before hm))
        (hrun.keeps hI hunder hp)
    · have hrun := breaks_of_convert h
      obtain ⟨e, he, _⟩ := h
      rw [he]
      exact ih (fun m hm => hended m (hrun.advances.inProgress_before hm))
        (hrun.keeps hI hunder hp)

end RpcSchema.Source
