/-
  RpcSchema.Proofs.Conversion.Calls
  ─────────────────────────────────
  **WHAT EVERY STEP KEEPS, EVERY CALL KEEPS.**

  A call converts a native, or extracts the methods of a service, and it
  may fail anywhere.  An extraction begins and ends its conversions like
  any other, and in between adds messages for requests and responses.  So
  a property that is stable, and that such a message does not break,
  holds after any calls.

  The messages of methods have one of their own: nothing was converted to
  them, and nothing will be.

  Main statements: `Lasting.after` and `lasting_setApart`.
-/
import RpcSchema.Proofs.Conversion.Definitions
import RpcSchema.Proofs.Conversion.Extraction

namespace RpcSchema

/-! ## §1. Steps that keep a property. -/

namespace Conversion

variable {α β : Type} {J : Pool → Prop}

/-- Whether it succeeds or fails, the step leaves a pool with the property if it finds one. -/
def Keeps (J : Pool → Prop) (x : Conversion α) : Prop :=
  ∀ p, J p → J (x.outcome p).2

theorem keeps_pure (a : α) : Keeps J (pure a : Conversion α) :=
  fun _ hp => hp

theorem keeps_add {f : Pool → EntryId × Pool} (h : ∀ p, J p → J (f p).2) : Keeps J (add f) :=
  h

/-- Steps that keep a property keep it one after the other, also when the first one fails. -/
theorem Keeps.bind {x : Conversion α} {f : α → Conversion β} (hx : Keeps J x)
    (hf : ∀ a, Keeps J (f a)) : Keeps J (x >>= f) := by
  intro p hp
  have hr := hx p hp
  rw [outcome_bind]
  rcases hrun : x.outcome p with ⟨_ | a, r⟩
  · rw [hrun] at hr
    exact hr
  · rw [hrun] at hr
    exact hf a r hr

/-- Saying where a step failed changes no pool. -/
theorem Keeps.within {x : Conversion α} (hx : Keeps J x) (place : Place) :
    Keeps J (x.within place) := by
  intro p hp
  have hr := hx p hp
  -- saying where an error was met leaves the pool alone
  rcases hrun : x.outcome p with ⟨e | a, r⟩
  · rw [hrun] at hr
    rw [outcome_within_of_error hrun]
    exact hr
  · rw [hrun] at hr
    rw [outcome_within_of_ok hrun]
    exact hr

/-- Steps along a list keep what each of them keeps. -/
theorem Keeps.mapM {f : α → Conversion β} (hf : ∀ a, Keeps J (f a)) (l : List α) :
    Keeps J (l.mapM f) := by
  induction l with
  | nil => exact keeps_pure []
  | cons a l ih =>
    rw [List.mapM_cons]
    exact (hf a).bind fun _ => ih.bind fun _ => keeps_pure _

theorem Keeps.of_yields {x : Conversion α} (hx : Keeps J x) {p q : Pool} {a : α}
    (h : x.Yields p a q) (hp : J p) : J q := by
  have hq := hx p hp
  rwa [show x.outcome p = (.ok a, q) from h] at hq

end Conversion

/-! ## §2. Calls. -/

namespace Source

open Conversion

variable (s : Source)

/-- Each change that a call makes to a pool keeps the property. -/
structure Lasting (I : Pool → Prop) : Prop extends s.Stable I where
  message : ∀ {p : Pool} name fields, I p → I (p.message name fields).2

/-- No conversion is under way, and the pool has the property. -/
structure AtRest (I : Pool → Prop) (p : Pool) : Prop where
  ended : ∀ n, p.slot n ≠ some .inProgress
  holds : I p

variable {s} {I : Pool → Prop} {p q : Pool} {n : NativeId} {t : EntryId}

theorem atRest_start (h : I Pool.start) : AtRest I Pool.start where
  ended _ h := by cases h
  holds := h

/-- What single steps keep, a conversion keeps. -/
theorem Stable.keeps_convert (hI : s.Stable I) (n : NativeId) :
    Keeps (AtRest I) (s.convert n) := by
  intro p hp
  have hunder : s.Under p [n] := under_of_ended hp.ended _
  have hadv := s.steady_convert n p
  -- nothing is under way before, and nothing is left under way
  refine ⟨fun k hk => hp.ended k (hadv.inProgress_before hk), ?_⟩
  rcases yields_or_failsWith (s.convert n) p with ⟨t, q, h⟩ | ⟨c, q, h⟩
  · -- the conversion succeeds
    obtain ⟨met, hrun⟩ := converts_of_convert h
    rw [show (s.convert n).outcome p = (.ok t, q) from h]
    exact hrun.keeps hI hunder hp.holds
  · -- the conversion fails, and what it finished stays
    have hrun := breaks_of_convert h
    obtain ⟨e, he, _⟩ := h
    rw [he]
    exact hrun.keeps hI hunder hp.holds

theorem Lasting.keeps_message (hI : s.Lasting I) (name : String) (fields : List MessageField) :
    Keeps (AtRest I) (add (·.message name fields)) :=
  keeps_add fun _ hp => ⟨hp.ended, hI.message name fields hp.holds⟩

theorem Lasting.keeps_extractMethod (hI : s.Lasting I) (m : Method) :
    Keeps (AtRest I) (s.extractMethod m) := by
  -- parameters and results are converted alike, at different places
  have hfield : ∀ (place : Place) (n : NativeId) (name : String), Keeps (AtRest I)
      (do return (⟨name, ← (s.convert n).within place⟩ : MessageField)
        : Conversion MessageField) :=
    fun place n _ => ((hI.keeps_convert n).within place).bind fun _ => keeps_pure _
  refine (Keeps.mapM (fun v : Var × Nat => hfield _ _ _) _).bind fun _ => ?_
  refine (Keeps.mapM (fun v : Var × Nat => hfield _ _ _) _).bind fun _ => ?_
  refine (hI.keeps_message _ _).bind fun _ => (hI.keeps_message _ _).bind fun _ => ?_
  exact keeps_pure _

theorem Lasting.keeps_call (hI : s.Lasting I) (c : Call) : Keeps (AtRest I) (s.call c) := by
  cases c with
  | convert n => exact (hI.keeps_convert n).bind fun _ => keeps_pure _
  | extract entrypoint excluded =>
    exact (Keeps.mapM hI.keeps_extractMethod _).bind fun _ => keeps_pure _

/-- **Whatever is called, and whether it fails, what every step keeps still holds.** -/
theorem Lasting.after (hI : s.Lasting I) (calls : List Call) (hp : AtRest I p) :
    AtRest I (s.after p calls) := by
  induction calls generalizing p with
  | nil => exact hp
  | cons c calls ih =>
    rw [after_cons]
    exact ih (hI.keeps_call c p hp)

/-! ## §3. Grounded pools. -/

theorem lasting_grounded (s : Source) : s.Lasting s.Grounded where
  toStable := s.stable_grounded
  message _ _ hp := hp.define _

/-! ## §4. Messages that nothing is converted to. -/

variable (s) in
/-- The entry `x` is a message, and no native was converted to it. -/
structure SetApart (x : EntryId) (p : Pool) : Prop extends s.Grounded p where
  message : ∃ name fields, p.entry x = .definition (.message name fields)
  unclaimed : ∀ n, p.slot n ≠ some (.done x)

variable {x : EntryId} {r r' : Pool}

/-- A message stays set apart while the pool grows, unless a native is newly finished with it. -/
theorem SetApart.extend (hp : s.SetApart x p) (hq : s.Grounded q) (hg : p.Grows q)
    (hdone : ∀ n, q.slot n = some (.done x) → p.slot n = some (.done x)) : s.SetApart x q where
  toGrounded := hq
  message := by
    obtain ⟨name, fields, hx⟩ := hp.message
    exact ⟨name, fields, (hg.entry_of_ne_any (by simp [hx])).trans hx⟩
  unclaimed n hn := hp.unclaimed n (hdone n hn)

/-- A new message is set apart: what was converted before is an older entry. -/
theorem Grounded.setApart_message (hp : s.Grounded p) (name : String) (fields : List MessageField) :
    s.SetApart (p.message name fields).1 (p.message name fields).2 where
  toGrounded := hp.define _
  message := ⟨name, fields, Pool.entry_push p _⟩
  unclaimed n hn := p.not_has_push _ (hp.has n _ hn)

/-- What stands for a native is no such message. -/
theorem SetApart.ne_of_stands (hp : s.SetApart x p) (h : s.Stands p n t) : t ≠ x := by
  -- a message is neither a scalar nor a reference, and no slot holds it
  rintro rfl
  obtain ⟨name, fields, hx⟩ := hp.message
  cases h with
  | scalar _ _ ht =>
    rw [ht, hp.base.scalar] at hx
    cases hx
  | done _ hslot => exact hp.unclaimed n hslot
  | reference _ ht =>
    rw [ht] at hx
    cases hx

/-- What parts are assembled to is not set apart: it is a part, an entry of another form, or new. -/
theorem SetApart.ne_of_assembles {parts : List EntryId} (hr : s.SetApart x r)
    (hparts : ∀ y ∈ parts, y ≠ x) (h : s.Assembles n r parts t r') : t ≠ x := by
  obtain ⟨name, fields, hx⟩ := hr.message
  -- the message is still there behind the step, and was there before
  have hmessage : r'.entry x = .definition (.message name fields) :=
    (h.advances.toGrows.entry_of_ne_any (by simp [hx])).trans hx
  have hhas : r.Has x := Pool.has_of_entry_ne_any (by simp [hx])
  cases h with
  | pointer | through => exact hparts _ List.mem_cons_self
  | any =>
    rintro rfl
    rw [hr.base.any] at hx
    cases hx
  | scalar =>
    rintro rfl
    rw [hr.base.scalar] at hx
    cases hx
  | slice | map | error =>
    rintro rfl
    -- an interned entry is no definition
    have hentry := (Pool.entry_intern r _).symm.trans hmessage
    cases hentry
  | struct | interface | enum | lifted =>
    rintro rfl
    -- a new definition is not an old one
    exact r.not_has_push _ hhas

/-- **No conversion ends in the message of a method.** -/
theorem lasting_setApart (s : Source) (x : EntryId) : s.Lasting (s.SetApart x) where
  begin hp hb hslot :=
    hp.extend (hp.toGrounded.begin hb hslot) (Pool.Grows.begin hslot) fun _ => Pool.done_of_begin
  refer hp _ hc :=
    hp.extend (hp.toGrounded.refer hc) (Pool.Grows.intern _ _) fun m h => by
      rwa [Pool.slot_intern] at h
  finish hr hb hslot hparts ht := by
    have hin := hparts.advances.slot_begun
    refine hr.extend (hr.toGrounded.finish hb hparts ht) (grows_finish ht hin) fun m h => ?_
    -- only the slot that is finished could come to hold the message
    rcases slot_finish_cases ht h with ⟨_, hxt⟩ | ⟨_, hm⟩
    · refine absurd hxt.symm (hr.ne_of_assembles (fun y hy => ?_) ht)
      obtain ⟨k, _, hk⟩ := exists_left_of_mem hparts.returned hy
      exact hr.ne_of_stands hk.stands
    · exact hm
  abandon hr _ :=
    hr.extend (hr.toGrounded.abandon _) (Pool.Grows.abandon _ _) fun _ => Pool.done_of_abandon
  message name fields hp :=
    hp.extend (hp.toGrounded.define _) (Pool.Grows.push _ _) fun _ h => h

/-- Whatever is called afterwards, no native converts to a message that is set apart. -/
theorem SetApart.ne_of_yields (hp : AtRest (s.SetApart x) p) (later : List Call)
    (h : (s.convert n).Yields (s.after p later) t q) : t ≠ x := by
  have hlater := (s.lasting_setApart x).after later hp
  have hq := ((s.lasting_setApart x).keeps_convert n).of_yields h hlater
  rcases returned_of_convert hlater.ended h with ⟨kind, c, hn, hc, ht⟩ | ⟨hb, hslot⟩
  · exact hq.holds.ne_of_stands (.scalar hn hc ht)
  · exact hq.holds.ne_of_stands (.done hb hslot)

end Source

end RpcSchema
