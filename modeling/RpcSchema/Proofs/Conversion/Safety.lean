/-
  RpcSchema.Proofs.Conversion.Safety
  ──────────────────────────────────
  **CONVERSIONS ARE SAFE, HOWEVER CYCLIC THE TYPES ARE.**

  Nothing that a conversion asks for gets smaller: it goes through fields,
  implementations, keys and values, and back to where it was.  What gets
  less is the natives without a slot, since every level begins one.  So
  the budget of levels is never used up, and might as well be any other.

  This is said of the conversions alone.  A log that shows every finished
  conversion with its text would need the containers to unfold finitely on
  top of it: a list that is finished over itself is a result like any
  other here, and has a text without end.

  Main statements: `convertWithin_eq_convert` (the budget does not matter),
  `convertGuarded_eq` (no native is begun twice) and `calls_are_safe`.
-/
import RpcSchema.Proofs.Conversion.History
import RpcSchema.Proofs.Manifest.Walk

namespace RpcSchema

/-! ## §1. Steps that do the same. -/

namespace Conversion

variable {α β : Type} {p : Pool}

/-- Sequences of steps that do the same do the same. -/
theorem outcome_bind_congr {x y : Conversion α} {f g : α → Conversion β}
    (hx : x.outcome p = y.outcome p)
    (hf : ∀ a r, x.Yields p a r → (f a).outcome r = (g a).outcome r) :
    (x >>= f).outcome p = (y >>= g).outcome p := by
  rw [outcome_bind, outcome_bind, ← hx]
  rcases hrun : x.outcome p with ⟨_ | a, r⟩
  · rfl
  · exact hf a r hrun

/-- A place does not tell two conversions apart that have one outcome. -/
theorem outcome_within_congr {x y : Conversion α} (place : Place)
    (hx : x.outcome p = y.outcome p) : (x.within place).outcome p = (y.within place).outcome p := by
  rcases hrun : x.outcome p with ⟨e | a, q⟩
  · rw [outcome_within_of_error hrun, outcome_within_of_error (hx.symm.trans hrun)]
  · rw [outcome_within_of_ok hrun, outcome_within_of_ok (hx.symm.trans hrun)]

/-- Two steps do the same on every element, as long as a property holds that the first keeps. -/
theorem outcome_mapM_congr {f g : α → Conversion β} {P : Pool → Prop}
    (hfg : ∀ a p, P p → (f a).outcome p = (g a).outcome p)
    (hkeep : ∀ a b p q, P p → (f a).Yields p b q → P q) (l : List α) (hp : P p) :
    (l.mapM f).outcome p = (l.mapM g).outcome p := by
  induction l generalizing p with
  | nil => rfl
  | cons a l ih =>
    rw [List.mapM_cons, List.mapM_cons]
    refine outcome_bind_congr (hfg a p hp) fun b r hb => ?_
    exact outcome_bind_congr (ih (hkeep a b p r hp hb)) fun _ _ _ => rfl

/-- It is enough that conversions do the same once the native is begun. -/
theorem outcome_memoized_congr {x y : Conversion EntryId} {n : NativeId}
    (h : p.slot n = none → x.outcome (p.begin n) = y.outcome (p.begin n)) :
    (memoized n x).outcome p = (memoized n y).outcome p := by
  cases hslot : p.slot n with
  | none =>
    rw [memoized_of_unmet hslot, memoized_of_unmet hslot]
    have hsame := h hslot
    rcases hrun : x.outcome (p.begin n) with ⟨e | id, q⟩
    · rw [outcome_inSlot_of_error hrun, outcome_inSlot_of_error (hsame.symm.trans hrun)]
    · rw [outcome_inSlot_of_ok hrun, outcome_inSlot_of_ok (hsame.symm.trans hrun)]
  | some slot =>
    -- a native that has a slot is answered, whatever its conversion would be
    simp only [outcome, memoized, ExceptT.run_mk, Pool.lookup, hslot]
    cases slot <;> rfl

end Conversion

namespace Source

open Conversion

variable (s : Source)

/-! ## §2. The budget does not matter. -/

omit s in
theorem outcome_visit_congr {f g : NativeId → Conversion EntryId} {p : Pool}
    (h : ∀ n, (f n).outcome p = (g n).outcome p) (part : Option Place × NativeId) :
    (visit f part).outcome p = (visit g part).outcome p := by
  rcases part with ⟨_ | place, n⟩
  · exact h n
  · exact outcome_within_congr place (h n)

/-- **Two budgets that allow a level for every native without a slot do the same.**  By induction
on the smaller one: what is begun has a slot then. -/
theorem outcome_convertWithin_eq {k l : Nat} {n : NativeId} {p : Pool}
    (hk : (s.unmet p).length < k) (hl : (s.unmet p).length < l) :
    (s.convertWithin k n).outcome p = (s.convertWithin l n).outcome p := by
  induction k generalizing l n p with
  | zero => exact absurd hk (Nat.not_lt_zero _)
  | succ k ih =>
    obtain ⟨l, rfl⟩ : ∃ j, l = j + 1 := ⟨l - 1, by omega⟩
    by_cases hb : s.IsBasic n
    · obtain ⟨kind, hn⟩ := hb
      simp only [convertWithin, hn]
    · rw [convertWithin_succ hb, convertWithin_succ hb]
      refine outcome_memoized_congr fun hslot => ?_
      rw [shape_eq, shape_eq]
      refine outcome_bind_congr ?_ fun _ _ _ => rfl
      by_cases hn : n ∈ s.types.ids
      · -- one native less is without a slot while the parts are converted
        have hless := length_unmet_begin hn hslot
        have hsmaller : (s.unmet (p.begin n)).length < k ∧ (s.unmet (p.begin n)).length < l := by
          omega
        refine outcome_mapM_congr
          (P := fun q => (s.unmet q).length < k ∧ (s.unmet q).length < l)
          (fun part q hq => ?_) (fun part id q r hq hid => ?_) (s.steps n) hsmaller
        · exact outcome_visit_congr (fun m => ih hq.1 hq.2) part
        · have hadv : q.Advances r := by
            have hstep := steady_visit (s.steady_convertWithin k) part q
            rwa [show (visit (s.convertWithin k) part).outcome q = (.ok id, r) from hid] at hstep
          have hle := length_unmet_le (s := s) hadv
          omega
      · -- an unknown native has no parts
        have hnone : s.steps n = [] := by simp [steps, kind_of_not_mem_ids hn]
        rw [hnone]
        rfl

/-- **The budget does not matter**, as long as it is no smaller. -/
theorem convertWithin_eq_convert {k : Nat} (hk : s.budget ≤ k) : s.convertWithin k = s.convert :=
  funext fun _ => funext fun p =>
    s.outcome_convertWithin_eq (Nat.lt_of_lt_of_le (s.length_unmet_lt_budget p) hk)
      (s.length_unmet_lt_budget p)

/-! ## §3. No native is begun twice. -/

end Source

/-- A conversion in a slot of its own that raises the alarm where it would begin a native that has
a slot. -/
def Conversion.guarded (alarm : CompileError) (n : NativeId) (x : Conversion EntryId) :
    Conversion EntryId :=
  ExceptT.mk fun p =>
    if p.slot n = none then (Conversion.inSlot n x).run p else (.error alarm, p)

/-- As `memoized`, with a guard. -/
def Conversion.memoizedGuarded (alarm : CompileError) (n : NativeId)
    (x : Conversion EntryId) : Conversion EntryId :=
  ExceptT.mk fun p =>
    match p.lookup n with
    | (some id, q) => (.ok id, q)
    | (none, q) => (Conversion.guarded alarm n x).run q

namespace Source

open Conversion

variable (s : Source)

/-- As `convertWithin`, with a guard at every native that is begun. -/
def convertGuarded (alarm : CompileError) : Nat → NativeId → Conversion EntryId
  | 0, _ => throw .tooDeep
  | k + 1, n =>
    match s.types.kind n with
    | .basic kind => s.scalar n kind
    | kind => memoizedGuarded alarm n (s.shape (convertGuarded alarm k) n kind)

omit s in
/-- **The guard against a second begin is never raised.** -/
theorem memoizedGuarded_eq (alarm : CompileError) (n : NativeId) (x : Conversion EntryId) :
    memoizedGuarded alarm n x = memoized n x := by
  funext p
  show (memoizedGuarded alarm n x).run p = (memoized n x).run p
  simp only [memoizedGuarded, memoized, guarded, ExceptT.run_mk, Pool.lookup]
  cases hslot : p.slot n with
  | none => simp only [hslot, if_true]
  | some slot => cases slot <;> rfl

/-- **No alarm is ever raised.** -/
theorem convertGuarded_eq (alarm : CompileError) (k : Nat) :
    s.convertGuarded alarm k = s.convertWithin k := by
  induction k with
  | zero => rfl
  | succ k ih =>
    funext n
    rw [convertGuarded, convertWithin, ih]
    cases s.types.kind n <;> first | rfl | exact memoizedGuarded_eq alarm n _

/-! ## §4. No call runs out of levels. -/

end Source

/-- The step does not fail for want of levels. -/
def Conversion.Shallow {α : Type} (x : Conversion α) : Prop :=
  ∀ p c q, x.FailsWith p c q → c ≠ .tooDeep

namespace Source

open Conversion

variable (s : Source)

omit s in
/-- What always yields is shallow. -/
theorem shallow_of_yields {α : Type} {x : Conversion α} (h : ∀ p, ∃ a q, x.Yields p a q) :
    x.Shallow := by
  intro p c q hc
  obtain ⟨a, r, ha⟩ := h p
  exact absurd hc ha.not_failsWith

omit s in
/-- Shallow conversions in sequence are shallow. -/
theorem shallow_bind {α β : Type} {x : Conversion α} {f : α → Conversion β} (hx : x.Shallow)
    (hf : ∀ a, (f a).Shallow) : (x >>= f).Shallow := by
  intro p c q hc
  rcases failsWith_bind.1 hc with h | ⟨a, r, _, h⟩
  · exact hx p c q h
  · exact hf a r c q h

omit s in
theorem shallow_mapM {α β : Type} {f : α → Conversion β} (hf : ∀ a, (f a).Shallow)
    (l : List α) : (l.mapM f).Shallow := by
  induction l with
  | nil => exact shallow_of_yields fun p => ⟨[], p, rfl⟩
  | cons a l ih =>
    intro p c q hc
    rcases failsWith_mapM_cons.1 hc with h | ⟨b, r, _, h⟩
    · exact hf a p c q h
    · exact ih r c q h

theorem shallow_convert (n : NativeId) : (s.convert n).Shallow :=
  fun _ _ _ h => (breaks_of_convert h).ne_tooDeep

/-- Extractions of methods are shallow. -/
theorem shallow_extractMethod (m : Method) : (s.extractMethod m).Shallow := by
  have hpure : ∀ {α : Type} (a : α), (pure a : Conversion α).Shallow :=
    fun a => shallow_of_yields fun p => ⟨a, p, rfl⟩
  have hadd : ∀ f, (add f).Shallow :=
    fun f => shallow_of_yields fun p => ⟨(f p).1, (f p).2, rfl⟩
  -- the only steps that could be too deep are conversions
  have hfield : ∀ (place : Place) (n : NativeId) (name : String),
      (do return (⟨name, ← (s.convert n).within place⟩ : MessageField)
        : Conversion MessageField).Shallow :=
    fun place n name => shallow_bind
      (fun p c q h => s.shallow_convert n p c q (failsWith_within.1 h)) fun _ => hpure _
  refine shallow_bind (shallow_mapM (fun v : Var × Nat => hfield _ _ _) _) fun _ => ?_
  refine shallow_bind (shallow_mapM (fun v : Var × Nat => hfield _ _ _) _) fun _ => ?_
  exact shallow_bind (hadd _) fun _ => shallow_bind (hadd _) fun _ => hpure _

theorem shallow_call (c : Call) : (s.call c).Shallow := by
  have hpure : (pure () : Conversion Unit).Shallow := shallow_of_yields fun p => ⟨(), p, rfl⟩
  cases c with
  | convert n => exact shallow_bind (s.shallow_convert n) fun _ => hpure
  | extract entrypoint excluded =>
    exact shallow_bind (shallow_mapM s.shallow_extractMethod _) fun _ => hpure

end Source

/-! ## §5. Calls. -/

/-- **Calls on a converter are safe, however cyclic the types are.**

For every package that a manifest describes: a larger budget of levels changes no conversion, and
none runs out of levels.  The walks that a conversion makes, which spell a type, follow pointers,
collect a method set and look for a native inside a container, do not depend on their budgets
either.  A native is only begun when it has no slot, so that a guard against it changes nothing.
Whatever calls were made before, and whether they failed, after a call no conversion is under way,
and what was finished before has the same result.

It is assumed that no log asks for the texts of finished conversions (`Pool.display`), which have
no end where the containers do not unfold finitely. -/
theorem calls_are_safe {m : Manifest} {pkg : Package} (h : m.build = .ok pkg)
    (fieldless : List String) :
    (∀ k, (pkg.source fieldless).budget ≤ k →
      (pkg.source fieldless).convertWithin k = (pkg.source fieldless).convert) ∧
    (∀ k id, pkg.types.size < k →
      pkg.types.spellWithin k id = pkg.types.spell id ∧
        pkg.types.derefWithin k id = pkg.types.deref id) ∧
    (∀ k id, 1 + Graph.edgeCount pkg.types.embeds pkg.types.ids ≤ k →
      Graph.explore pkg.types.embeds k [id] [] = pkg.types.embeddingOrder id) ∧
    (∀ (p : Pool) (n : NativeId) k id, 1 + Graph.edgeCount (p.inside n) p.ids ≤ k →
      p.refersTo id n
        = (Graph.explore (p.inside n) k [id] []).any fun e => p.entry e = .reference n) ∧
    (∀ alarm k, (pkg.source fieldless).convertGuarded alarm k
      = (pkg.source fieldless).convertWithin k) ∧
    ∀ calls c, ∃ result q, ((pkg.source fieldless).call c).outcome
        ((pkg.source fieldless).after Pool.start calls) = (result, q) ∧
      (∀ e, result = .error e → e.root ≠ .tooDeep) ∧
      (∀ n, q.slot n ≠ some .inProgress) ∧
      ∀ n t, ((pkg.source fieldless).after Pool.start calls).slot n = some (.done t) →
        q.slot n = some (.done t) := by
  have hpkg := Manifest.build_formed h
  refine ⟨fun k hk => (pkg.source fieldless).convertWithin_eq_convert hk, fun k id hk => ?_,
    fun k id hk => ?_, fun p n k id hk => ?_,
    fun alarm k => (pkg.source fieldless).convertGuarded_eq alarm k, fun calls c => ?_⟩
  · exact ⟨hpkg.spellWithin_eq_spell hk id, hpkg.derefWithin_eq_deref hk id⟩
  · exact Graph.explore_eq_order pkg.types.embeds_of_not_mem_ids hk
  · -- both searches visit each entry once, whatever budget is left
    rw [Graph.explore_eq_order (Pool.inside_of_not_mem_ids n) hk]
    rfl
  · have hadv := (pkg.source fieldless).steady_call c
      ((pkg.source fieldless).after Pool.start calls)
    -- between calls nothing is under way, and a call changes that only for a while
    have hended := (pkg.source fieldless).ended_after calls
    rcases hrun : ((pkg.source fieldless).call c).outcome
      ((pkg.source fieldless).after Pool.start calls) with ⟨result, q⟩
    rw [hrun] at hadv
    refine ⟨result, q, rfl, fun e he => ?_, fun n hn => ?_, hadv.done⟩
    · rw [he] at hrun
      exact (pkg.source fieldless).shallow_call c _ _ _ ⟨e, hrun, rfl⟩
    · exact hended n (hadv.inProgress_before hn)

/-- After `A` failed, a call for `B` leaves nothing under way. -/
theorem calls_are_safe_pair : pairManifest.build = .ok pairPackage ∧
    ∃ result q, ((pairPackage.source []).call (.convert (.entry 22))).outcome
        ((pairPackage.source []).after Pool.start [.convert (.entry 21)]) = (result, q) ∧
      ∀ n, q.slot n ≠ some .inProgress := by
  obtain ⟨_, _, _, _, _, hcalls⟩ := calls_are_safe pair_build []
  obtain ⟨result, q, hrun, _, hended, _⟩ := hcalls [.convert (.entry 21)] (.convert (.entry 22))
  exact ⟨pair_build, result, q, hrun, hended⟩

end RpcSchema
