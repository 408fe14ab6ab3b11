/-
  RpcSchema.Proofs.Conversion.Failure
  ───────────────────────────────────
  **WHAT A RUN THAT FAILS HAS DONE.**

  `Breaks ns p c q` is a run that fails: of the natives `ns`, converted one
  after the other from the pool `p`, one has no conversion, for the reason
  `c`, and `q` is what is left.  In front of it stand runs that succeed,
  and each native whose conversion was under way has given its slot up.

  A native fails for want of a part, or because what its parts came to
  cannot be assembled (`Refuses`); the budget of levels is no reason, since
  every level takes one native that had no slot.

  Main statement: `breaks_of_failsWith` — every run of the program that
  fails is one.
-/
import RpcSchema.Proofs.Conversion.Steady

namespace RpcSchema

/-! ## §1. Steps that fail. -/

namespace Conversion

variable {α β : Type} {p q r : Pool} {c : CompileError}

/-- Started in `p`, the step fails for the reason `c` and leaves `q`. -/
def FailsWith (x : Conversion α) (p : Pool) (c : CompileError) (q : Pool) : Prop :=
  ∃ e, x.outcome p = (.error e, q) ∧ e.root = c

theorem yields_or_failsWith (x : Conversion α) (p : Pool) :
    (∃ a q, x.Yields p a q) ∨ ∃ c q, x.FailsWith p c q := by
  rcases h : x.outcome p with ⟨e | a, q⟩
  · exact Or.inr ⟨e.root, q, e, h, rfl⟩
  · exact Or.inl ⟨a, q, h⟩

theorem Yields.not_failsWith {x : Conversion α} {a : α} (h : x.Yields p a r) :
    ¬ x.FailsWith p c q := by
  rintro ⟨e, he, _⟩
  exact error_pair_ne (he.symm.trans h)

theorem error_pair_inj {e f : CompileError} :
    ((.error e, p) : Except CompileError α × Pool) = (.error f, q) ↔ f = e ∧ q = p := by
  rw [Prod.mk.injEq, Except.error.injEq, eq_comm (a := e), eq_comm (a := p)]

theorem failsWith_throw {e : CompileError} :
    (throw e : Conversion α).FailsWith p c q ↔ c = e.root ∧ q = p := by
  constructor
  · rintro ⟨e', he, rfl⟩
    obtain ⟨rfl, rfl⟩ := error_pair_inj.1 he
    exact ⟨rfl, rfl⟩
  · rintro ⟨rfl, rfl⟩
    exact ⟨e, rfl, rfl⟩

theorem not_failsWith_pure {a : α} : ¬ (pure a : Conversion α).FailsWith p c q :=
  (yields_pure.2 ⟨rfl, rfl⟩).not_failsWith

theorem not_failsWith_add {f : Pool → EntryId × Pool} : ¬ (add f).FailsWith p c q :=
  (yields_add.2 ⟨rfl, rfl⟩).not_failsWith

/-- A sequence fails in its first step, or in the rest. -/
theorem failsWith_bind {x : Conversion α} {f : α → Conversion β} :
    (x >>= f).FailsWith p c q ↔
      x.FailsWith p c q ∨ ∃ a r, x.Yields p a r ∧ (f a).FailsWith r c q := by
  unfold FailsWith Yields
  rw [outcome_bind]
  rcases x.outcome p with ⟨e | a, r⟩
  · -- the first step fails, so the second one is not run
    constructor
    · rintro ⟨e', he, rfl⟩
      obtain ⟨rfl, rfl⟩ := error_pair_inj.1 he
      exact Or.inl ⟨_, rfl, rfl⟩
    · rintro (⟨e', he, rfl⟩ | ⟨a, r', h, _⟩)
      · obtain ⟨rfl, rfl⟩ := error_pair_inj.1 he
        exact ⟨_, rfl, rfl⟩
      · exact absurd h error_pair_ne
  · -- the first step succeeds, and the second one decides
    constructor
    · intro h
      exact Or.inr ⟨a, r, rfl, h⟩
    · rintro (⟨e', he, _⟩ | ⟨a', r', h, hf⟩)
      · exact absurd he.symm error_pair_ne
      · obtain ⟨rfl, rfl⟩ := ok_pair_inj.1 h
        exact hf

/-- Places say where a failure was met, not why. -/
theorem failsWith_within {x : Conversion α} {place : Place} :
    (x.within place).FailsWith p c q ↔ x.FailsWith p c q := by
  unfold FailsWith
  rcases hrun : x.outcome p with ⟨e | a, r⟩
  · rw [outcome_within_of_error hrun]
    constructor
    · rintro ⟨e', he, rfl⟩
      obtain ⟨rfl, rfl⟩ := error_pair_inj.1 he
      exact ⟨e, rfl, rfl⟩
    · rintro ⟨e', he, rfl⟩
      obtain ⟨rfl, rfl⟩ := error_pair_inj.1 he
      exact ⟨_, rfl, rfl⟩
  · -- neither fails
    rw [outcome_within_of_ok hrun]

theorem failsWith_mapM_cons {f : α → Conversion β} {a : α} {l : List α} :
    ((a :: l).mapM f).FailsWith p c q ↔
      (f a).FailsWith p c q ∨ ∃ b r, (f a).Yields p b r ∧ (l.mapM f).FailsWith r c q := by
  rw [List.mapM_cons, failsWith_bind]
  refine or_congr_right (exists_congr fun b => exists_congr fun r => and_congr_right fun _ => ?_)
  rw [failsWith_bind]
  refine or_iff_left ?_
  rintro ⟨bs, r', _, h⟩
  exact not_failsWith_pure h

/-- A native without a slot fails as its conversion does, and has no slot again. -/
theorem failsWith_memoized {x : Conversion EntryId} {n : NativeId}
    (h : (memoized n x).FailsWith p c q) :
    p.slot n = none ∧ ∃ r, x.FailsWith (p.begin n) c r ∧ q = r.abandon n := by
  cases hslot : p.slot n with
  | none =>
    refine ⟨rfl, ?_⟩
    obtain ⟨e, he, rfl⟩ := h
    rw [memoized_of_unmet hslot] at he
    rcases hx : x.outcome (p.begin n) with ⟨e' | id, r⟩
    · rw [outcome_inSlot_of_error hx] at he
      obtain ⟨rfl, rfl⟩ := error_pair_inj.1 he
      exact ⟨r, ⟨_, hx, rfl⟩, rfl⟩
    · rw [outcome_inSlot_of_ok hx] at he
      exact absurd he.symm error_pair_ne
  | some slot =>
    -- a native that has a slot is answered
    cases slot with
    | done t => exact absurd h ((yields_memoized_of_done hslot).2 ⟨rfl, rfl⟩).not_failsWith
    | inProgress =>
      exact absurd h ((yields_memoized_of_inProgress hslot).2 ⟨rfl, rfl⟩).not_failsWith

end Conversion

namespace Source

open Conversion

variable (s : Source)

/-! ## §2. What cannot be assembled. -/

/-- The native has no schema type, whatever its parts are converted to; the error calls it by the
shape of the kind. -/
inductive Shapeless (n : NativeId) : NativeKind → Prop
  | struct {fs} (hn : s.types.kind n = .struct fs) : Shapeless n (.struct fs)
  | tuple {elems} (hn : s.types.kind n = .tuple elems) : Shapeless n (.tuple elems)
  | interface {asked} (hn : s.types.kind n = .interface asked)
      (hasks : s.types.methodSet n ≠ []) : Shapeless n (.interface asked)
  /-- A name for a name, which no package holds once it is frozen. -/
  | named {decl decl'} (hn : s.Declares n decl (.named decl')) : Shapeless n (.named decl')
  /-- A name without a shape, which no package holds either. -/
  | undefined {decl elems} (hn : s.Declares n decl (.tuple elems)) : Shapeless n (.tuple elems)

/-- `Refuses n r ids c`: in the pool `r`, where the parts of the native `n` are `ids`, nothing can
be assembled, for the reason `c`. -/
inductive Refuses (n : NativeId) (r : Pool) : List EntryId → CompileError → Prop
  | scalar {decl kind ids} (hn : s.Declares n decl (.basic kind)) (he : s.enums.lookup n = none)
      (hc : kind.scalar? = none) :
      Refuses n r ids (.unsupportedScalar (s.types.spell n) kind.name)
  | shape {kind ids} (hn : s.Shapeless n kind) :
      Refuses n r ids (.unsupportedShape (s.types.spell n) kind.shape)
  | key {key value x y} (hn : s.types.kind n = .map key value)
      (hkey : isKey (r.resolved x) = false) :
      Refuses n r [x, y] (.unsupportedMapKey (r.display x) (s.types.spell n))
  | itself {decl shape x} (hn : s.Declares n decl shape) (hc : shape.isContainer = true)
      (hself : r.entry x = .reference n) :
      Refuses n r [x] (.unsupportedShape (s.types.spell n) shape.shape)

variable {s} {n : NativeId} {p q r : Pool} {c : CompileError} {ids : List EntryId}

theorem failsWith_unsupported {kind : NativeKind}
    (h : (s.unsupported n kind : Conversion EntryId).FailsWith p c q) :
    c = .unsupportedShape (s.types.spell n) kind.shape ∧ q = p :=
  failsWith_throw.1 h

/-- A basic kind fails if it has no scalar. -/
theorem failsWith_scalar {kind : BasicKind} (h : (s.scalar n kind).FailsWith p c q) :
    kind.scalar? = none ∧ c = .unsupportedScalar (s.types.spell n) kind.name ∧ q = p := by
  unfold scalar at h
  cases hc : kind.scalar? with
  | none =>
    rw [hc] at h
    exact ⟨rfl, failsWith_throw.1 h⟩
  | some _ =>
    rw [hc] at h
    exact absurd h not_failsWith_pure

/-- Only a reference to the type itself cannot be closed. -/
theorem failsWith_close {decl : NamedType} {x : EntryId}
    (h : (s.close n decl x).FailsWith r c q) :
    r.entry x = .reference n ∧ q = r ∧
      c = .unsupportedShape (s.types.spell n) (s.types.kind decl.underlying).shape := by
  unfold close at h
  rcases failsWith_bind.1 h with hread | ⟨p, r₁, hread, hrest⟩
  · exact absurd hread (yields_read.2 ⟨rfl, rfl⟩).not_failsWith
  · obtain ⟨rfl, rfl⟩ := yields_read.1 hread
    by_cases hself : r₁.entry x = .reference n
    · rw [if_pos hself] at hrest
      obtain ⟨rfl, rfl⟩ := failsWith_unsupported hrest
      exact ⟨hself, rfl, rfl⟩
    · -- closed by a message, or as it is
      rw [if_neg hself] at hrest
      by_cases hin : r₁.refersTo x n = true
      · rw [if_pos hin] at hrest
        exact absurd hrest not_failsWith_add
      · rw [if_neg hin] at hrest
        exact absurd hrest not_failsWith_pure

/-- Only the key of a map is refused. -/
theorem refuses_map {key value : NativeId} {x y : EntryId}
    (hn : s.types.kind n = .map key value) (h : (s.assembleMap n x y).FailsWith r c q) :
    q = r ∧ s.Refuses n r [x, y] c := by
  unfold assembleMap at h
  -- to look at the key does not fail
  rcases failsWith_bind.1 h with hread | ⟨ok, r₁, hread, hrest⟩
  · exact absurd hread (yields_read.2 ⟨rfl, rfl⟩).not_failsWith
  · obtain ⟨rfl, rfl⟩ := yields_read.1 hread
    -- and of what follows only a key that is none is refused
    by_cases hkey : isKey (r₁.resolved x) = true
    · rw [if_pos hkey] at hrest
      exact absurd hrest not_failsWith_add
    · rw [if_neg hkey] at hrest
      rcases failsWith_bind.1 hrest with hread' | ⟨text, r₂, hread', hthrow⟩
      · exact absurd hread' (yields_read.2 ⟨rfl, rfl⟩).not_failsWith
      · obtain ⟨rfl, rfl⟩ := yields_read.1 hread'
        obtain ⟨rfl, rfl⟩ := failsWith_throw.1 hthrow
        exact ⟨rfl, .key hn (by simpa using hkey)⟩

/-- What a named type is refused for.  By cases on the shape behind the name. -/
theorem refuses_named {decl : NamedType} (hn : s.types.kind n = .named decl)
    (hlen : ids.length = (s.edges n).length)
    (h : (s.assembleNamed n decl ids).FailsWith r c q) : q = r ∧ s.Refuses n r ids c := by
  unfold assembleNamed at h
  by_cases herr : s.types.isError n = true
  · rw [if_pos herr] at h
    exact absurd h not_failsWith_add
  · rw [if_neg herr] at h
    have herr : s.types.isError n = false := by simpa using herr
    -- the one part of a container
    have hone : ∀ shape, s.types.kind decl.underlying = shape → shape.isContainer = true →
        (s.close n decl (ids.headD .absent)).FailsWith r c q → q = r ∧ s.Refuses n r ids c := by
      intro shape hu hc hclose
      rw [edges_container ⟨hn, herr, hu⟩ hc] at hlen
      obtain ⟨x, rfl⟩ := List.length_eq_one_iff.1 hlen
      obtain ⟨hself, rfl, rfl⟩ := failsWith_close hclose
      rw [hu]
      exact ⟨rfl, .itself ⟨hn, herr, hu⟩ hc hself⟩
    -- structs, interfaces that ask for something and enumerations are always assembled
    cases hu : s.types.kind decl.underlying with
    | struct fs =>
      simp only [hu] at h
      exact absurd h not_failsWith_add
    | interface asked =>
      simp only [hu] at h
      by_cases hempty : (s.types.methodSet n).isEmpty = true
      · rw [if_pos hempty] at h
        exact absurd h not_failsWith_pure
      · rw [if_neg hempty] at h
        exact absurd h not_failsWith_add
    | basic kind =>
      simp only [hu] at h
      cases he : s.enums.lookup n with
      | some e =>
        simp only [he] at h
        exact absurd h not_failsWith_add
      | none =>
        simp only [he] at h
        obtain ⟨hc, rfl, rfl⟩ := failsWith_scalar h
        exact ⟨rfl, .scalar ⟨hn, herr, hu⟩ he hc⟩
    | pointer elem =>
      simp only [hu] at h
      exact hone _ hu rfl h
    | slice elem =>
      simp only [hu] at h
      exact hone _ hu rfl h
    | map key value =>
      simp only [hu] at h
      exact hone _ hu rfl h
    | named decl' =>
      simp only [hu] at h
      obtain ⟨rfl, rfl⟩ := failsWith_unsupported h
      exact ⟨rfl, .shape (.named ⟨hn, herr, hu⟩)⟩
    | tuple elems =>
      simp only [hu] at h
      obtain ⟨rfl, rfl⟩ := failsWith_unsupported h
      exact ⟨rfl, .shape (.undefined ⟨hn, herr, hu⟩)⟩

/-- **Why an assembly fails.**  It leaves the pool as it was. -/
theorem refuses_of_failsWith (hb : ¬ s.IsBasic n) (hlen : ids.length = (s.edges n).length)
    (h : (s.assemble n ids).FailsWith r c q) : q = r ∧ s.Refuses n r ids c := by
  unfold assemble at h
  -- pointers and lists are always assembled; the rest is refused for its shape, its key or its name
  cases hn : s.types.kind n with
  | basic kind => exact absurd ⟨kind, hn⟩ hb
  | pointer elem =>
    simp only [hn] at h
    exact absurd h not_failsWith_pure
  | slice elem =>
    simp only [hn] at h
    exact absurd h not_failsWith_add
  | map key value =>
    simp only [hn] at h
    rw [edges_map hn] at hlen
    obtain ⟨x, y, rfl⟩ := List.length_eq_two.1 hlen
    exact refuses_map hn h
  | named decl =>
    simp only [hn] at h
    exact refuses_named hn hlen h
  | interface asked =>
    simp only [hn] at h
    by_cases hempty : (s.types.methodSet n).isEmpty = true
    · rw [if_pos hempty] at h
      exact absurd h not_failsWith_pure
    · rw [if_neg hempty] at h
      obtain ⟨rfl, rfl⟩ := failsWith_unsupported h
      exact ⟨rfl, .shape (.interface hn (by simpa using hempty))⟩
  | struct fs =>
    simp only [hn] at h
    obtain ⟨rfl, rfl⟩ := failsWith_unsupported h
    exact ⟨rfl, .shape (.struct hn)⟩
  | tuple elems =>
    simp only [hn] at h
    obtain ⟨rfl, rfl⟩ := failsWith_unsupported h
    exact ⟨rfl, .shape (.tuple hn)⟩

/-! ## §3. Levels. -/

/-- The natives that have no slot. -/
def unmet (s : Source) (p : Pool) : List NativeId :=
  s.types.ids.filter fun n => p.slot n = none

/-- A pool that advances has no less slots. -/
theorem length_unmet_le (h : p.Advances q) : (s.unmet q).length ≤ (s.unmet p).length := by
  unfold unmet
  rw [← List.countP_eq_length_filter, ← List.countP_eq_length_filter]
  refine List.countP_mono_left fun n _ hq => ?_
  simp only [decide_eq_true_eq] at hq ⊢
  cases hp : p.slot n with
  | none => rfl
  | some slot =>
    rw [h.slot_eq hp] at hq
    cases hq

/-- To begin a native takes one level. -/
theorem length_unmet_begin (hn : n ∈ s.types.ids) (hslot : p.slot n = none) :
    (s.unmet (p.begin n)).length < (s.unmet p).length := by
  -- what is without a slot afterwards is what was before, but for the native that is begun
  have hsub : s.unmet (p.begin n) = (s.unmet p).filter (· ≠ n) := by
    unfold unmet
    rw [List.filter_filter]
    congr 1
    funext m
    simp only [Pool.slot_begin_eq_none_iff, Bool.decide_and, Bool.and_comm]
  rw [hsub, List.length_filter_lt_length_iff_exists]
  exact ⟨n, List.mem_filter.2 ⟨hn, by simpa using hslot⟩, by simp⟩

/-- There are more levels than natives without a slot. -/
theorem length_unmet_lt_budget (s : Source) (p : Pool) : (s.unmet p).length < s.budget := by
  have hle : (s.unmet p).length ≤ s.types.ids.length := List.length_filter_le _ _
  have hsize : s.types.ids.length = s.types.size := by simp [Universe.ids]
  unfold budget
  omega

/-! ## §4. Runs that fail. -/

variable (s)

/-- A run that fails: of the natives `ns`, converted in turn from the pool `p`, one has no
conversion, for the reason `c`, and the pool `q` is left. -/
inductive Breaks : List NativeId → Pool → CompileError → Pool → Prop
  | scalar {n kind ns p} (hn : s.types.kind n = .basic kind) (hc : kind.scalar? = none) :
      Breaks (n :: ns) p (.unsupportedScalar (s.types.spell n) kind.name) p
  | later {n t ns p met r c q} (hfirst : s.Converts [n] p met [t] r)
      (hrest : Breaks ns r c q) : Breaks (n :: ns) p c q
  | part {n ns p c r} (hb : ¬ s.IsBasic n) (hslot : p.slot n = none)
      (hparts : Breaks (s.edges n) (p.begin n) c r) : Breaks (n :: ns) p c (r.abandon n)
  | refused {n ns p inner parts r c} (hb : ¬ s.IsBasic n) (hslot : p.slot n = none)
      (hparts : s.Converts (s.edges n) (p.begin n) inner parts r) (hc : s.Refuses n r parts c) :
      Breaks (n :: ns) p c (r.abandon n)

variable {s}

/-- A part fails for the reason its native fails for, at whatever place. -/
theorem failsWith_visit {recur : NativeId → Conversion EntryId}
    {part : Option Place × NativeId} :
    (visit recur part).FailsWith p c q ↔ (recur part.2).FailsWith p c q := by
  rcases part with ⟨_ | place, n⟩
  · exact Iff.rfl
  · exact failsWith_within

theorem failsWith_mapM_visit {recur : NativeId → Conversion EntryId}
    {parts : List (Option Place × NativeId)} :
    (parts.mapM (visit recur)).FailsWith p c q ↔
      ((parts.map (·.2)).mapM recur).FailsWith p c q := by
  induction parts generalizing p with
  | nil => exact Iff.rfl
  | cons part rest ih =>
    rw [List.map_cons, failsWith_mapM_cons, failsWith_mapM_cons]
    simp only [yields_visit, failsWith_visit, ih]

/-- One native that the program cannot convert. -/
theorem breaks_of_convertWithin {k : Nat} {ns : List NativeId}
    (hk : (s.unmet p).length < k + 1)
    (hparts : ∀ ns p c q, (s.unmet p).length < k →
      (ns.mapM (s.convertWithin k)).FailsWith p c q → s.Breaks ns p c q)
    (h : (s.convertWithin (k + 1) n).FailsWith p c q) : s.Breaks (n :: ns) p c q := by
  by_cases hb : s.IsBasic n
  · obtain ⟨kind, hn⟩ := hb
    simp only [convertWithin, hn] at h
    obtain ⟨hc, rfl, rfl⟩ := failsWith_scalar h
    exact .scalar hn hc
  · rw [convertWithin_succ hb, shape_eq] at h
    obtain ⟨hslot, r, hr, rfl⟩ := failsWith_memoized h
    rcases failsWith_bind.1 hr with hvisit | ⟨parts, r', hvisit, hasm⟩
    · -- a part fails, so there is one, and the native is none of the unknown ones
      rw [failsWith_mapM_visit] at hvisit
      have hn : n ∈ s.types.ids := by
        by_contra hn
        rw [show (s.steps n).map (·.2) = [] by simp [steps, kind_of_not_mem_ids hn]] at hvisit
        exact not_failsWith_pure hvisit
      have hless := length_unmet_begin hn hslot
      exact .part hb hslot (hparts _ _ _ _ (by omega) hvisit)
    · -- all parts are converted, so it is the assembly that fails
      rw [yields_mapM_visit] at hvisit
      obtain ⟨inner, hinner⟩ := converts_of_yields k _ _ _ _ hvisit
      obtain ⟨rfl, hrefuses⟩ := refuses_of_failsWith hb hinner.length_eq hasm
      exact .refused hb hslot hinner hrefuses

/-- **Every conversion of the program that fails is a run that fails.**  By induction on the
budget, and for one budget along the list; there is a level left for every native without a
slot. -/
theorem breaks_of_failsWith (k : Nat) (ns : List NativeId) (p : Pool) (c : CompileError)
    (q : Pool) (hk : (s.unmet p).length < k)
    (h : (ns.mapM (s.convertWithin k)).FailsWith p c q) : s.Breaks ns p c q := by
  induction k generalizing ns p c q with
  | zero => exact absurd hk (Nat.not_lt_zero _)
  | succ k ih =>
    induction ns generalizing p with
    | nil => exact absurd h not_failsWith_pure
    | cons n ns ihns =>
      rcases failsWith_mapM_cons.1 h with hfirst | ⟨t, r, ht, hrest⟩
      · exact breaks_of_convertWithin hk ih hfirst
      · -- the first native is converted, and there are no more natives without a slot than before
        have hadv : p.Advances r := by
          have hsteady := s.steady_convertWithin (k + 1) n p
          rwa [show (s.convertWithin (k + 1) n).outcome p = (.ok t, r) from ht] at hsteady
        have hone : ([n].mapM (s.convertWithin (k + 1))).Yields p [t] r :=
          yields_mapM_cons.2 ⟨t, r, [], ht, yields_mapM_nil.2 ⟨rfl, rfl⟩, rfl⟩
        obtain ⟨met, hmet⟩ := converts_of_yields _ _ _ _ _ hone
        exact .later hmet (ihns r (Nat.lt_of_le_of_lt (length_unmet_le hadv) hk) hrest)

/-- The budget is no reason. -/
theorem Breaks.ne_tooDeep {ns : List NativeId} (h : s.Breaks ns p c q) : c ≠ .tooDeep := by
  induction h with
  | scalar => simp
  | later _ _ ih => exact ih
  | part _ _ _ ih => exact ih
  | refused _ _ _ hc => cases hc <;> simp

/-- A run that fails leaves the natives in progress as they were. -/
theorem Breaks.advances {ns : List NativeId} (h : s.Breaks ns p c q) : p.Advances q := by
  induction h with
  | scalar => exact Pool.Advances.refl _
  | later hfirst _ ih => exact hfirst.advances.trans ih
  | part _ hslot _ ih => exact Pool.Advances.abandon hslot ih
  | refused _ hslot hparts _ => exact Pool.Advances.abandon hslot hparts.advances

end Source

end RpcSchema
