/-
  RpcSchema.Proofs.Conversion.Loop
  ────────────────────────────────
  **THE CONVERSION OF A POINTER THAT LEADS TO NOTHING BUT POINTERS.**

  The chain of such a pointer runs into a loop.  Its conversion begins one
  native after the other until it comes back to one that is in progress,
  and that answers with a reference to itself, which is handed up the
  chain.  The check for pointers without a shape asks whether the shape of
  a *named* pointer came out as a reference to that very name, so what
  happens depends on where the loop is entered.

  Main statements: `exists_loops` and `convert_of_loops`.
-/
import RpcSchema.Proofs.Conversion.Invariant
import RpcSchema.Proofs.Graph.Cycle

namespace RpcSchema

namespace Source

open Conversion

variable (s : Source)

/-! ## §1. Following pointers. -/

/-- From `n` on, where the natives `seen` were passed already, `c` is the first that pointers
lead to a second time. -/
inductive Loops : List NativeId → NativeId → NativeId → Prop
  | closes {seen n} (h : n ∈ seen) : Loops seen n n
  | step {seen n m c} (h : n ∉ seen) (hm : s.PointsTo n m) (hrest : Loops (n :: seen) m c) :
      Loops seen n c

variable {s} {n m c : NativeId} {seen : List NativeId}

/-- What points to something is a native of the package. -/
theorem mem_ids_of_pointsTo (h : s.PointsTo n m) : n ∈ s.types.ids := by
  by_contra hn
  have hk := kind_of_not_mem_ids hn
  rcases pointsTo_iff.1 h with hp | ⟨decl, elem, ⟨hp, _⟩, _⟩
  · rw [hk] at hp
    cases hp
  · rw [hk] at hp
    cases hp

/-- An endless pointer leads to a loop. -/
theorem exists_loops (h : s.Endless n) (seen : List NativeId) : ∃ c, s.Loops seen n c := by
  -- by induction on the natives that are not passed yet
  induction hk : (s.types.ids.filter (· ∉ seen)).length using Nat.strongRecOn
    generalizing n seen with
  | _ k ih =>
    by_cases hn : n ∈ seen
    · exact ⟨n, .closes hn⟩
    · -- one native less is left to pass
      obtain ⟨m, hm, hend⟩ := h.exists_next
      subst hk
      obtain ⟨c, hc⟩ := ih _ (Graph.length_unseen hn (mem_ids_of_pointsTo hm)) hend (n :: seen) rfl
      exact ⟨c, .step hn hm hc⟩

/-! ## §2. The conversion of a looping pointer. -/

/-- The entry `t` is a reference to `c` that leads to itself at most. -/
def Lands (p : Pool) (c : NativeId) (t : EntryId) : Prop :=
  p.entry t = .reference c ∧ ∀ b, p.slot c = some (.done b) → b = t

/-- A pointer, named or not, keeps a reference to another native as its result. -/
theorem assemble_yields_of_lands {r : Pool} {t : EntryId} (hm : s.PointsTo n m)
    (ht : Lands r c t) (hne : c ≠ n) : (s.assemble n [t]).Yields r t r := by
  rcases pointsTo_iff.1 hm with hn | ⟨decl, elem, ⟨hn, herr, hu⟩, _⟩
  · unfold assemble
    rw [hn]
    exact yields_pure.2 ⟨rfl, rfl⟩
  · -- named: it is neither refused nor closed, since `c` is another native
    have hself : r.entry t ≠ .reference n := by
      intro h
      rw [ht.1] at h
      exact hne (Entry.reference.inj h)
    have hin : r.refersTo t n = false := Pool.refersTo_reference_eq_false ht.1 hne ht.2
    have hclose : (s.close n decl t).Yields r t r := by
      unfold close
      refine yields_bind.2 ⟨r, r, yields_read.2 ⟨rfl, rfl⟩, ?_⟩
      rw [if_neg hself, if_neg (by simp [hin])]
      exact yields_pure.2 ⟨rfl, rfl⟩
    unfold assemble assembleNamed
    simp only [hn, herr, hu]
    exact hclose

/-- A named pointer that came out as a reference to itself is an error. -/
theorem assemble_fails_of_self {r : Pool} {t : EntryId} {decl : NamedType} {elem : NativeId}
    (hn : s.Declares n decl (.pointer elem)) (ht : r.entry t = .reference n) :
    (s.assemble n [t]).Fails r (.unsupportedShape (s.types.spell n) .pointer) := by
  obtain ⟨hn, herr, hu⟩ := hn
  -- the entry is the reference to the type itself
  have hclose : (s.close n decl t).Fails r (.unsupportedShape (s.types.spell n) .pointer) := by
    unfold close
    refine (yields_read.2 ⟨rfl, rfl⟩ : (Conversion.read (·)).Yields r r r).bind_fails ?_
    rw [if_pos ht, hu]
    exact fails_throw _ r
  unfold assemble assembleNamed
  simp only [hn, herr, hu]
  exact hclose

/-- The parts of a pointer: what it points to. -/
theorem yields_edges_of_pointsTo {recur : NativeId → Conversion EntryId} {p r : Pool}
    {t : EntryId} (hm : s.PointsTo n m) (ht : (recur m).Yields p t r) :
    ((s.edges n).mapM recur).Yields p [t] r := by
  rw [hm.edges]
  exact yields_mapM_cons.2 ⟨t, r, [], ht, yields_mapM_nil.2 ⟨rfl, rfl⟩, rfl⟩

/-- Where what it points to fails, a pointer fails. -/
theorem shape_fails_of_pointsTo {recur : NativeId → Conversion EntryId} {p : Pool}
    {e : CompileError} (hm : s.PointsTo n m) (ht : (recur m).Fails p e) :
    (s.shape recur n (s.types.kind n)).Fails p e := by
  have hsteps : s.steps n = [(none, m)] := by
    rcases pointsTo_iff.1 hm with hn | ⟨decl, elem, ⟨hn, herr, hu⟩, rfl⟩
    · simp [steps, hn]
    · simp [steps, hn, herr, hu]
  rw [shape_eq, hsteps, List.mapM_cons]
  exact (ht.bind _).bind _

/-- A pointer without a slot, whose parts are converted and assembled. -/
theorem convertWithin_yields_of_pointsTo {k : Nat} {p r : Pool} {t : EntryId}
    (hm : s.PointsTo n m) (hslot : p.slot n = none)
    (ht : (s.convertWithin k m).Yields (p.begin n) t r) (hasm : (s.assemble n [t]).Yields r t r) :
    (s.convertWithin (k + 1) n).Yields p t (r.finish n t) := by
  rw [convertWithin_succ hm.not_isBasic, yields_memoized_of_unmet hslot]
  refine ⟨r, (s.yields_shape).2 ⟨[t], r, ?_, hasm⟩, rfl⟩
  exact yields_edges_of_pointsTo hm ht

/-- Where what it points to fails, a pointer without a slot fails. -/
theorem convertWithin_fails_of_pointsTo {k : Nat} {p : Pool} {e : CompileError}
    (hm : s.PointsTo n m) (hslot : p.slot n = none)
    (h : (s.convertWithin k m).Fails (p.begin n) e) : (s.convertWithin (k + 1) n).Fails p e := by
  rw [convertWithin_succ hm.not_isBasic]
  exact Fails.memoized hslot (shape_fails_of_pointsTo hm h)

section Loop

variable {k : Nat} {p r : Pool} {t : EntryId}

/-- A pointer hands a reference to another native up the chain. -/
theorem convertWithin_yields_of_lands (hm : s.PointsTo n m) (hslot : p.slot n = none)
    (ht : (s.convertWithin k m).Yields (p.begin n) t r) (hlands : Lands r c t) (hne : c ≠ n) :
    ∃ q, (s.convertWithin (k + 1) n).Yields p t q ∧ q.entry t = .reference c ∧
      q.slot c = r.slot c := by
  refine ⟨r.finish n t, ?_, ?_, ?_⟩
  · exact convertWithin_yields_of_pointsTo hm hslot ht (assemble_yields_of_lands hm hlands hne)
  · exact (Pool.entry_finish r n t t).trans hlands.1
  · exact Pool.slot_finish_of_ne hne

/-- A loop that is entered at a pointer without a name leaves a reference to itself. -/
theorem convertWithin_yields_of_unnamed (hm : s.PointsTo c m) (hslot : p.slot c = none)
    (hname : ∀ decl, s.types.kind c ≠ .named decl)
    (ht : (s.convertWithin k m).Yields (p.begin c) t r) (hself : r.entry t = .reference c) :
    ∃ q, (s.convertWithin (k + 1) c).Yields p t q ∧ q.entry t = .reference c ∧
      q.slot c = some (.done t) := by
  have hasm : (s.assemble c [t]).Yields r t r := by
    rcases pointsTo_iff.1 hm with hp | ⟨decl, elem, ⟨hp, _⟩, _⟩
    · unfold assemble
      rw [hp]
      exact yields_pure.2 ⟨rfl, rfl⟩
    · -- a named pointer is excluded here
      exact absurd hp (hname decl)
  refine ⟨r.finish c t, convertWithin_yields_of_pointsTo hm hslot ht hasm, ?_, ?_⟩
  · exact (Pool.entry_finish r c t t).trans hself
  · exact Pool.slot_finish_self r c t

/-- A loop that is entered at a pointer with a name is an error. -/
theorem convertWithin_fails_of_named {decl : NamedType} (hm : s.PointsTo c m)
    (hslot : p.slot c = none) (hd : s.types.kind c = .named decl)
    (ht : (s.convertWithin k m).Yields (p.begin c) t r) (hself : r.entry t = .reference c) :
    (s.convertWithin (k + 1) c).Fails p (.unsupportedShape (s.types.spell c) .pointer) := by
  obtain ⟨elem, hc⟩ : ∃ elem, s.Declares c decl (.pointer elem) := by
    rcases pointsTo_iff.1 hm with hp | ⟨decl', elem, hp, _⟩
    · -- an unnamed pointer has no declaration
      rw [hd] at hp
      cases hp
    · obtain rfl := NativeKind.named.inj (hd.symm.trans hp.1)
      exact ⟨elem, hp⟩
  rw [convertWithin_succ hm.not_isBasic]
  refine Fails.memoized hslot ?_
  rw [shape_eq]
  refine Yields.bind_fails (yields_mapM_visit.2 ?_) (assemble_fails_of_self hc hself)
  exact yields_edges_of_pointsTo hm ht

end Loop

/-- The pointers that `n` leads to are in progress if they were passed, and have no slot
otherwise. -/
def Passed (s : Source) (p : Pool) (seen : List NativeId) (n : NativeId) : Prop :=
  ∀ m, Relation.ReflTransGen s.PointsTo n m →
    p.slot m = if m ∈ seen then some .inProgress else none

/-- The pointer that is begun is passed, and the next one is where the walk stands. -/
theorem Passed.begin {p : Pool} (h : s.Passed p seen n) (hm : s.PointsTo n m) :
    s.Passed (p.begin n) (n :: seen) m := by
  intro j hj
  by_cases hjn : j = n
  · rw [hjn, if_pos List.mem_cons_self]
    exact Pool.slot_begin_self p n
  · rw [Pool.slot_begin_of_ne hjn, h j (.head hm hj)]
    simp [hjn]

/-- **The conversion of a looping pointer.**  If the loop closes on a native that was passed, or on
one without a name, the conversion ends in a reference to it; if it is entered now, at a native
that has a name, the conversion fails.  By induction on the way to the loop. -/
theorem convert_of_loops (h : s.Loops seen n c) (hend : s.Endless n) (k : Nat) (p : Pool)
    (hslots : s.Passed p seen n) (hk : (s.types.ids.filter (· ∉ seen)).length + 1 ≤ k) :
    ((c ∈ seen ∨ ∀ decl, s.types.kind c ≠ .named decl) →
      ∃ t q, (s.convertWithin k n).Yields p t q ∧ q.entry t = .reference c ∧
        q.slot c = if c ∈ seen then some .inProgress else some (.done t)) ∧
    (c ∉ seen → (∃ decl, s.types.kind c = .named decl) →
      (s.convertWithin k n).Fails p (.unsupportedShape (s.types.spell c) .pointer)) := by
  induction h generalizing k p with
  | @closes seen n hn =>
    -- passed, hence in progress, and answered with a reference
    refine ⟨fun _ => ?_, fun hc => absurd hn hc⟩
    obtain ⟨k, rfl⟩ : ∃ j, k = j + 1 := ⟨k - 1, by omega⟩
    have hslot : p.slot n = some .inProgress := by
      rw [hslots n .refl, if_pos hn]
    refine ⟨(p.intern (.reference n)).1, (p.intern (.reference n)).2, ?_,
      Pool.entry_intern p _, ?_⟩
    · rw [convertWithin_succ hend.not_isBasic, yields_memoized_of_inProgress hslot]
      exact ⟨rfl, rfl⟩
    · rw [Pool.slot_intern, hslot, if_pos hn]
  | @step seen n m c hn hm _ ih =>
    have hslot : p.slot n = none := by
      rw [hslots n .refl, if_neg hn]
    have hless := Graph.length_unseen hn (mem_ids_of_pointsTo hm)
    obtain ⟨k, rfl⟩ : ∃ j, k = j + 1 := ⟨k - 1, by omega⟩
    -- the rest of the chain, with `n` passed and in progress
    obtain ⟨hok, hfail⟩ := ih (hend.next hm) k (p.begin n) (hslots.begin hm) (by omega)
    by_cases hcn : c = n
    · -- the loop is entered here
      subst hcn
      obtain ⟨t, r, ht, hself, _⟩ := hok (Or.inl List.mem_cons_self)
      constructor
      · intro hname
        obtain ⟨q, hq, hentry, hs⟩ :=
          convertWithin_yields_of_unnamed hm hslot (hname.resolve_left hn) ht hself
        exact ⟨t, q, hq, hentry, by rw [hs, if_neg hn]⟩
      · rintro _ ⟨decl, hd⟩
        exact convertWithin_fails_of_named hm hslot hd ht hself
    · -- the loop is further up or further down the chain
      have hmem : c ∈ n :: seen ↔ c ∈ seen := by simp [hcn]
      simp only [hmem] at hok hfail
      constructor
      · intro hc
        obtain ⟨t, r, ht, hself, hs⟩ := hok hc
        have hlands : Lands r c t := by
          refine ⟨hself, fun b hb => ?_⟩
          rw [hs] at hb
          split at hb
          · cases hb
          · cases hb
            rfl
        obtain ⟨q, hq, hentry, hslotc⟩ := convertWithin_yields_of_lands hm hslot ht hlands hcn
        exact ⟨t, q, hq, hentry, hslotc.trans hs⟩
      · intro hc hname
        exact convertWithin_fails_of_pointsTo hm hslot (hfail hc hname)

end Source

end RpcSchema
