/-
  RpcSchema.Proofs.Conversion.Steady
  ──────────────────────────────────
  **A CALL ENDS WHAT IT BEGINS.**

  A step that fails changes the pool as well: what was added stays, what
  was finished inside stays finished, and the slots under way are given
  up.  Whatever a step comes to, it is `Steady`: the pool advances, so the
  natives in progress afterwards are those that were before.

  Main statements: `steady_convertWithin`, `steady_call` and
  `advances_after`.
-/
import RpcSchema.Conversion.Service
import RpcSchema.Proofs.Conversion.Run

namespace RpcSchema

/-! ## §1. What a step comes to, in either case. -/

namespace Conversion

section Outcome

variable {α : Type} {x : Conversion α} {p q : Pool} {e : CompileError}

theorem outcome_within_of_ok {a : α} (h : x.outcome p = (.ok a, q)) (place : Place) :
    (x.within place).outcome p = (.ok a, q) := by
  simp only [outcome, within, ExceptT.run_mk] at h ⊢
  rw [h]

theorem outcome_within_of_error (h : x.outcome p = (.error e, q)) (place : Place) :
    (x.within place).outcome p = (.error (e.within place), q) := by
  simp only [outcome, within, ExceptT.run_mk] at h ⊢
  rw [h]

variable {y : Conversion EntryId} {n : NativeId} {id : EntryId}

theorem outcome_inSlot_of_ok (h : y.outcome (p.begin n) = (.ok id, q)) :
    (inSlot n y).outcome p = (.ok id, q.finish n id) := by
  simp only [outcome, inSlot, ExceptT.run_mk] at h ⊢
  rw [h]

theorem outcome_inSlot_of_error (h : y.outcome (p.begin n) = (.error e, q)) :
    (inSlot n y).outcome p = (.error e, q.abandon n) := by
  simp only [outcome, inSlot, ExceptT.run_mk] at h ⊢
  rw [h]

end Outcome

/-! ## §2. Steady steps. -/

variable {α β : Type}

/-- Whether it succeeds or fails, the step leaves the natives in progress as they were. -/
def Steady (x : Conversion α) : Prop :=
  ∀ p : Pool, p.Advances (x.outcome p).2

theorem steady_pure (a : α) : (pure a : Conversion α).Steady :=
  fun p => Pool.Advances.refl p

theorem steady_throw (e : CompileError) : (throw e : Conversion α).Steady :=
  fun p => Pool.Advances.refl p

theorem steady_read (f : Pool → α) : (read f).Steady :=
  fun p => Pool.Advances.refl p

theorem steady_intern (e : Entry) : (add (·.intern e)).Steady :=
  fun p => Pool.Advances.intern p e

theorem steady_push (e : Entry) : (add (·.push e)).Steady :=
  fun p => Pool.Advances.push p e

/-- **Steady steps in sequence are steady.** -/
theorem Steady.bind {x : Conversion α} {f : α → Conversion β} (hx : x.Steady)
    (hf : ∀ a, (f a).Steady) : (x >>= f).Steady := by
  intro p
  have hp := hx p
  rw [outcome_bind]
  rcases hrun : x.outcome p with ⟨_ | a, r⟩
  · rw [hrun] at hp
    exact hp
  · rw [hrun] at hp
    exact hp.trans (hf a r)

/-- A steady step inside a place is steady. -/
theorem Steady.within {x : Conversion α} (hx : x.Steady) (place : Place) :
    (x.within place).Steady := by
  intro p
  have hp := hx p
  rcases hrun : x.outcome p with ⟨e | a, r⟩
  · rw [hrun] at hp
    rw [outcome_within_of_error hrun]
    exact hp
  · rw [hrun] at hp
    rw [outcome_within_of_ok hrun]
    exact hp

/-- Steady steps along a list are steady. -/
theorem Steady.mapM {f : α → Conversion β} (hf : ∀ a, (f a).Steady) (l : List α) :
    (l.mapM f).Steady := by
  induction l with
  | nil => exact steady_pure []
  | cons a l ih =>
    rw [List.mapM_cons]
    exact (hf a).bind fun _ => ih.bind fun _ => steady_pure _

/-- **A conversion in a slot of its own is steady.**  The slot is begun and ended inside. -/
theorem Steady.memoized {x : Conversion EntryId} (hx : x.Steady) (n : NativeId) :
    (memoized n x).Steady := by
  intro p
  cases hslot : p.slot n with
  | none =>
    -- begun and then finished or given up, so no longer under way
    have hr := hx (p.begin n)
    rw [memoized_of_unmet hslot]
    rcases hrun : x.outcome (p.begin n) with ⟨e | id, r⟩
    · rw [hrun] at hr
      rw [outcome_inSlot_of_error hrun]
      exact Pool.Advances.abandon hslot hr
    · rw [hrun] at hr
      rw [outcome_inSlot_of_ok hrun]
      exact Pool.Advances.finish hslot hr (Pool.Grows.refl r) fun _ => rfl
  | some slot =>
    -- a slot that is there is not touched
    cases slot with
    | done t =>
      rw [((yields_memoized_of_done (x := x) hslot).2 ⟨rfl, rfl⟩ : _ = _)]
      exact Pool.Advances.refl p
    | inProgress =>
      rw [((yields_memoized_of_inProgress (x := x) hslot).2 ⟨rfl, rfl⟩ : _ = _)]
      exact Pool.Advances.intern p _

end Conversion

/-! ## §3. Steady conversions. -/

namespace Source

open Conversion

variable (s : Source)

/-- Scalars are made without touching slots. -/
theorem steady_scalar (n : NativeId) (kind : BasicKind) : (s.scalar n kind).Steady := by
  unfold scalar
  split
  · exact steady_pure _
  · exact steady_throw _

/-- Maps are assembled without touching slots. -/
theorem steady_assembleMap (n : NativeId) (key value : EntryId) :
    (s.assembleMap n key value).Steady := by
  refine (steady_read _).bind fun ok => ?_
  split
  · exact steady_intern _
  · exact (steady_read _).bind fun _ => steady_throw _

/-- Containers are closed without touching slots. -/
theorem steady_close (n : NativeId) (decl : NamedType) (id : EntryId) :
    (s.close n decl id).Steady := by
  refine (steady_read _).bind fun p => ?_
  split
  · exact steady_throw _
  · split
    · exact steady_push _
    · exact steady_pure _

/-- Named types are assembled without touching slots. -/
theorem steady_assembleNamed (n : NativeId) (decl : NamedType) (ids : List EntryId) :
    (s.assembleNamed n decl ids).Steady := by
  unfold assembleNamed
  split
  · exact steady_intern _
  · -- a definition is pushed, or nothing is
    cases s.types.kind decl.underlying with
    | struct fs => exact steady_push _
    | interface asked =>
      dsimp only
      split
      · exact steady_pure _
      · exact steady_push _
    | basic kind =>
      dsimp only
      split
      · exact steady_push _
      · exact s.steady_scalar n kind
    | pointer | slice | map => exact s.steady_close n decl _
    | named | tuple => exact steady_throw _

/-- **Whatever is assembled, slots are not touched.** -/
theorem steady_assemble (n : NativeId) (ids : List EntryId) : (s.assemble n ids).Steady := by
  unfold assemble
  -- one addition at most for each kind
  cases s.types.kind n with
  | basic kind => exact s.steady_scalar n kind
  | pointer => exact steady_pure _
  | slice => exact steady_intern _
  | map => exact s.steady_assembleMap n _ _
  | named decl => exact s.steady_assembleNamed n decl ids
  | interface asked =>
    dsimp only
    split
    · exact steady_pure _
    · exact steady_throw _
  | struct | tuple => exact steady_throw _

/-- A part is converted steadily if natives are. -/
theorem steady_visit {recur : NativeId → Conversion EntryId} (h : ∀ n, (recur n).Steady)
    (part : Option Place × NativeId) : (visit recur part).Steady := by
  rcases part with ⟨_ | place, n⟩
  · exact h n
  · exact (h n).within place

/-- **A conversion is steady within any budget.** -/
theorem steady_convertWithin (k : Nat) (n : NativeId) : (s.convertWithin k n).Steady := by
  induction k generalizing n with
  | zero => exact steady_throw _
  | succ k ih =>
    by_cases hb : s.IsBasic n
    · obtain ⟨kind, hn⟩ := hb
      simp only [convertWithin, hn]
      exact s.steady_scalar n kind
    · rw [convertWithin_succ hb, shape_eq]
      exact ((Steady.mapM (steady_visit ih) _).bind (s.steady_assemble n)).memoized n

/-- **Conversions are steady**, by induction on the levels that are left. -/
theorem steady_convert (n : NativeId) : (s.convert n).Steady :=
  s.steady_convertWithin s.budget n

/-- Extractions of methods are steady. -/
theorem steady_extractMethod (m : Method) : (s.extractMethod m).Steady := by
  -- the fields of the request, those of the response, then both messages
  have hfields : ∀ (place : Var × Nat → Place) (name : Var × Nat → String) (v : Var × Nat),
      (do return (⟨name v, ← (s.convert v.1.type).within (place v)⟩ : MessageField)
        : Conversion MessageField).Steady :=
    fun place _ v => ((s.steady_convert v.1.type).within (place v)).bind fun _ => steady_pure _
  refine (Steady.mapM (hfields _ fun v => fieldName v.1 v.2) _).bind fun _ => ?_
  refine (Steady.mapM (hfields _ fun v => s.resultName _ v.1 v.2) _).bind fun _ => ?_
  exact (steady_push _).bind fun _ => (steady_push _).bind fun _ => steady_pure _

theorem steady_extractMethods (entrypoint : NativeId) (excluded : List String) :
    (s.extractMethods entrypoint excluded).Steady :=
  Steady.mapM s.steady_extractMethod _

end Source

/-! ## §4. Calls. -/

/-- A call on a converter from outside. -/
inductive Call where
  | convert (n : NativeId)
  | extract (entrypoint : NativeId) (excluded : List String)
  deriving DecidableEq, Repr

namespace Source

open Conversion

variable (s : Source)

/-- What a call does, apart from what it returns. -/
def call : Call → Conversion Unit
  | .convert n => do
    let _ ← s.convert n
    return
  | .extract entrypoint excluded => do
    let _ ← s.extractMethods entrypoint excluded
    return

/-- The pool after some calls, each made on what the ones before it left. -/
def after (p : Pool) (calls : List Call) : Pool :=
  calls.foldl (fun p c => ((s.call c).outcome p).2) p

/-- Every call from outside is steady. -/
theorem steady_call (c : Call) : (s.call c).Steady := by
  cases c with
  | convert n => exact (s.steady_convert n).bind fun _ => steady_pure _
  | extract entrypoint excluded =>
    exact (s.steady_extractMethods entrypoint excluded).bind fun _ => steady_pure _

@[simp] theorem after_cons (p : Pool) (c : Call) (calls : List Call) :
    s.after p (c :: calls) = s.after ((s.call c).outcome p).2 calls := rfl

theorem after_append (p : Pool) (calls later : List Call) :
    s.after p (calls ++ later) = s.after (s.after p calls) later :=
  List.foldl_append

/-- A call of the converter leaves what the conversion leaves. -/
theorem outcome_call_convert (n : NativeId) (p : Pool) :
    ((s.call (.convert n)).outcome p).2 = ((s.convert n).outcome p).2 := by
  show ((s.convert n >>= fun _ => pure ()).outcome p).2 = _
  rw [outcome_bind]
  rcases (s.convert n).outcome p with ⟨_ | t, r⟩ <;> rfl

/-- Conversions that all succeed leave what they leave as one run. -/
theorem after_eq_of_yields {s : Source} {ns : List NativeId} {p q : Pool} {ts : List EntryId}
    (h : (ns.mapM s.convert).Yields p ts q) : s.after p (ns.map .convert) = q := by
  induction ns generalizing p ts with
  | nil => exact (yields_mapM_nil.1 h).2.symm
  | cons n ns ih =>
    obtain ⟨t, r, rest, ht, hrest, _⟩ := yields_mapM_cons.1 h
    rw [List.map_cons, after_cons, outcome_call_convert,
      show (s.convert n).outcome p = (.ok t, r) from ht]
    exact ih hrest

/-- **Between calls nothing becomes in progress, and what is done stays done.** -/
theorem advances_after (p : Pool) (calls : List Call) : p.Advances (s.after p calls) := by
  induction calls generalizing p with
  | nil => exact Pool.Advances.refl p
  | cons c calls ih => exact (s.steady_call c p).trans (ih _)

/-- No conversion is under way between calls. -/
theorem ended_after (calls : List Call) (n : NativeId) :
    (s.after Pool.start calls).slot n ≠ some .inProgress :=
  (s.advances_after Pool.start calls).fresh n rfl

end Source

end RpcSchema
