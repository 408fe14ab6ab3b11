/-
  RpcSchema.Proofs.Pool.Growth
  ────────────────────────────
  **HOW A POOL CHANGES WHILE TYPES ARE CONVERTED.**

  Two orders on pools:

    • `p.Grows q` — entries are added, none changes, and what is done stays
      done: every step of a conversion grows the pool;
    • `p.Advances q` — moreover the natives in progress are the same before
      and after: this is what one conversion from its start to its end does.

  The steps in between are `Advances.finish` and `Advances.abandon`: begin
  a native, advance, and record the result or give the slot up.
-/
import RpcSchema.Pool.Basic

namespace RpcSchema.Pool

/-! ## §1. Ids of a pool. -/

/-- An id that the pool handed out. -/
def Has (p : Pool) (id : EntryId) : Prop :=
  ∃ i, i < p.size ∧ id = .entry i

/-- What does not read as an unknown entry was handed out. -/
theorem has_of_entry_ne_any {p : Pool} {id : EntryId} (h : p.entry id ≠ .any) : p.Has id := by
  cases id with
  | absent => exact absurd rfl h
  | entry i =>
    by_cases hi : i < p.size
    · exact ⟨i, hi, rfl⟩
    · refine absurd ?_ h
      show p.entries.getD i .any = .any
      rw [Array.getD_eq_getD_getElem?, Array.getElem?_eq_none (by simpa [size] using hi)]
      rfl

theorem has_push (p : Pool) (e : Entry) : (p.push e).2.Has (p.push e).1 :=
  ⟨p.size, by rw [size_push]; exact Nat.lt_succ_self _, rfl⟩

theorem not_has_push (p : Pool) (e : Entry) : ¬ p.Has (p.push e).1 := by
  rintro ⟨i, hi, hid⟩
  cases hid
  exact Nat.lt_irrefl _ hi

@[simp] theorem slot_push (p : Pool) (e : Entry) (n : NativeId) :
    (p.push e).2.slot n = p.slot n := rfl

/-- A pushed entry is the only new one. -/
theorem entry_push_of_ne (p : Pool) (e : Entry) {id : EntryId} (h : id ≠ (p.push e).1) :
    (p.push e).2.entry id = p.entry id := by
  cases id with
  | absent => rfl
  | entry i =>
    have hi : i ≠ p.entries.size := fun hi => h (congrArg EntryId.entry hi)
    simp [push, entry, Array.getElem?_push, hi]

/-- An entry of the longer pool is an old one or the new one. -/
theorem entry_push_cases {p : Pool} {e : Entry} {id : EntryId} (h : (p.push e).2.Has id) :
    p.Has id ∧ (p.push e).2.entry id = p.entry id ∨
      id = (p.push e).1 ∧ (p.push e).2.entry id = e := by
  by_cases hid : id = (p.push e).1
  · exact Or.inr ⟨hid, by rw [hid, entry_push]⟩
  · obtain ⟨i, hi, rfl⟩ := h
    have hne : i ≠ p.size := fun hi => hid (congrArg EntryId.entry hi)
    rw [size_push] at hi
    exact Or.inl ⟨⟨i, by omega, rfl⟩, entry_push_of_ne p e hid⟩

/-- **An entry is interned where it stands, or stands nowhere and is added.** -/
theorem intern_cases (p : Pool) (e : Entry) :
    (∃ id, p.Has id ∧ p.entry id = e ∧ p.intern e = (id, p)) ∨
      (∀ id, p.Has id → p.entry id ≠ e) ∧ p.intern e = p.push e := by
  unfold intern
  split
  · -- found: the entry at the place that was found is the one looked for
    rename_i i hi
    obtain ⟨hlt, he, _⟩ := Array.findIdx?_eq_some_iff_getElem.1 hi
    refine Or.inl ⟨.entry i, ⟨i, hlt, rfl⟩, ?_, rfl⟩
    simp only [entry, Array.getD_eq_getD_getElem?, Array.getElem?_eq_getElem hlt,
      Option.getD_some]
    simpa using he
  · -- not found: no entry that is there is the one looked for
    rename_i hnone
    refine Or.inr ⟨fun id hid he => ?_, rfl⟩
    obtain ⟨i, hi, rfl⟩ := hid
    have hlt : i < p.entries.size := hi
    have hne := Array.findIdx?_eq_none_iff.1 hnone (p.entry (.entry i)) (by simp [entry, hlt])
    simp [he] at hne

/-- An interned entry is there. -/
theorem has_intern (p : Pool) (e : Entry) : (p.intern e).2.Has (p.intern e).1 := by
  rcases p.intern_cases e with ⟨_, hid, _, hi⟩ | ⟨_, hi⟩
  · rwa [hi]
  · rw [hi]
    exact has_push p e

/-- To intern touches no slot. -/
@[simp] theorem slot_intern (p : Pool) (e : Entry) (n : NativeId) :
    (p.intern e).2.slot n = p.slot n := by
  rcases p.intern_cases e with ⟨_, _, _, hi⟩ | ⟨_, hi⟩
  · rw [hi]
  · rw [hi, slot_push]

/-- An interned entry is the only new one. -/
theorem entry_intern_of_ne (p : Pool) (e : Entry) {id : EntryId} (h : id ≠ (p.intern e).1) :
    (p.intern e).2.entry id = p.entry id := by
  rcases p.intern_cases e with ⟨_, _, _, hi⟩ | ⟨_, hi⟩
  · rw [hi]
  · rw [hi] at h ⊢
    exact entry_push_of_ne p e h

@[simp] theorem entry_setSlot (p : Pool) (n : NativeId) (s : Slot) (id : EntryId) :
    (p.setSlot n s).entry id = p.entry id := by
  cases id <;> rfl

/-! ## §2. Beginning and finishing. -/

section Slots

variable {p : Pool} {n m : NativeId} {t : EntryId}

@[simp] theorem slot_begin_self (p : Pool) (n : NativeId) :
    (p.begin n).slot n = some .inProgress :=
  slot_setSlot_self p n _

theorem slot_begin_of_ne (h : m ≠ n) : (p.begin n).slot m = p.slot m :=
  slot_setSlot_of_ne _ h

theorem slot_begin_eq_none_iff : (p.begin n).slot m = none ↔ p.slot m = none ∧ m ≠ n := by
  by_cases hm : m = n
  · simp [hm]
  · simp [slot_begin_of_ne hm, hm]

@[simp] theorem entry_begin (p : Pool) (n : NativeId) (id : EntryId) :
    (p.begin n).entry id = p.entry id :=
  entry_setSlot p n _ id

@[simp] theorem slot_finish_self (p : Pool) (n : NativeId) (t : EntryId) :
    (p.finish n t).slot n = some (.done t) :=
  slot_setSlot_self p n _

theorem slot_finish_of_ne (h : m ≠ n) : (p.finish n t).slot m = p.slot m :=
  slot_setSlot_of_ne _ h

@[simp] theorem entry_finish (p : Pool) (n : NativeId) (t id : EntryId) :
    (p.finish n t).entry id = p.entry id :=
  entry_setSlot p n _ id

/-- To give up touches no entry. -/
@[simp] theorem entry_abandon (p : Pool) (n : NativeId) (id : EntryId) :
    (p.abandon n).entry id = p.entry id := by
  unfold abandon
  split
  · cases id <;> rfl
  · rfl

@[simp] theorem size_abandon (p : Pool) (n : NativeId) : (p.abandon n).size = p.size := by
  unfold abandon
  split <;> rfl

/-- A conversion that is given up leaves no slot. -/
theorem slot_abandon_of_inProgress (h : p.slot n = some .inProgress) :
    (p.abandon n).slot n = none := by
  rw [slot_abandon_self, if_pos h]

/-- What is finished after a native was begun was finished before. -/
theorem done_of_begin (h : (p.begin n).slot m = some (.done t)) : p.slot m = some (.done t) := by
  by_cases hmn : m = n
  · rw [hmn, slot_begin_self] at h
    cases h
  · rwa [slot_begin_of_ne hmn] at h

/-- A native that is done after another was given up was so before. -/
theorem done_of_abandon (h : (p.abandon n).slot m = some (.done t)) :
    p.slot m = some (.done t) := by
  by_cases hmn : m = n
  · rw [hmn, slot_abandon_self] at h
    split at h
    · cases h
    · rwa [hmn]
  · rwa [slot_abandon_of_ne hmn] at h

end Slots

/-! ## §3. Growing. -/

/-- Entries are added, none changes, and what is done stays done. -/
structure Grows (p q : Pool) : Prop where
  size_le : p.size ≤ q.size
  entry_eq : ∀ id, p.Has id → q.entry id = p.entry id
  done : ∀ n id, p.slot n = some (.done id) → q.slot n = some (.done id)

namespace Grows

theorem refl (p : Pool) : p.Grows p :=
  ⟨Nat.le_refl _, fun _ _ => rfl, fun _ _ h => h⟩

variable {p q r : Pool}

theorem has (h : p.Grows q) {id : EntryId} (hid : p.Has id) : q.Has id := by
  obtain ⟨i, hi, rfl⟩ := hid
  exact ⟨i, Nat.lt_of_lt_of_le hi h.size_le, rfl⟩

theorem trans (hpq : p.Grows q) (hqr : q.Grows r) : p.Grows r where
  size_le := Nat.le_trans hpq.size_le hqr.size_le
  entry_eq id hid := by rw [hqr.entry_eq id (hpq.has hid), hpq.entry_eq id hid]
  done n id h := hqr.done n id (hpq.done n id h)

/-- An entry that says something stays as it is. -/
theorem entry_of_ne_any (h : p.Grows q) {id : EntryId} (hid : p.entry id ≠ .any) :
    q.entry id = p.entry id :=
  h.entry_eq id (has_of_entry_ne_any hid)

/-- To push an entry is to grow. -/
theorem push (p : Pool) (e : Entry) : p.Grows (p.push e).2 where
  size_le := by rw [size_push]; exact Nat.le_succ _
  entry_eq id hid := by
    obtain ⟨i, hi, rfl⟩ := hid
    exact entry_push_of_lt p e hi
  done _ _ h := h

/-- To intern an entry is to grow. -/
theorem intern (p : Pool) (e : Entry) : p.Grows (p.intern e).2 where
  size_le := size_le_intern p e
  entry_eq id hid := by
    obtain ⟨i, hi, rfl⟩ := hid
    exact entry_intern_of_lt p e hi
  done n id h := by rw [slot_intern]; exact h

/-- A native that is not done yet may change its slot. -/
theorem setSlot {n : NativeId} (s : Slot) (h : ∀ id, p.slot n ≠ some (.done id)) :
    p.Grows (p.setSlot n s) where
  size_le := Nat.le_refl _
  entry_eq id _ := entry_setSlot p n s id
  done m id hm := by
    have hne : m ≠ n := fun he => h id (he ▸ hm)
    rw [slot_setSlot_of_ne s hne]
    exact hm

theorem begin {n : NativeId} (h : p.slot n = none) : p.Grows (p.begin n) :=
  setSlot .inProgress fun id hd => by simp [h] at hd

/-- What is done is not given up. -/
theorem abandon (p : Pool) (n : NativeId) : p.Grows (p.abandon n) where
  size_le := Nat.le_of_eq (size_abandon p n).symm
  entry_eq id _ := entry_abandon p n id
  done m id hm := by
    by_cases hne : m = n
    · subst hne
      rw [slot_abandon_self, hm, if_neg (by simp)]
    · rw [slot_abandon_of_ne hne, hm]

end Grows

/-! ## §4. Advancing. -/

/-- Growing that leaves the same natives in progress. -/
structure Advances (p q : Pool) : Prop extends p.Grows q where
  inProgress : ∀ n, p.slot n = some .inProgress → q.slot n = some .inProgress
  fresh : ∀ n, p.slot n = none → q.slot n ≠ some .inProgress

namespace Advances

theorem refl (p : Pool) : p.Advances p :=
  ⟨Grows.refl p, fun _ h => h, fun n h hi => by simp [h] at hi⟩

variable {p q r r' : Pool} {n : NativeId}

/-- Advances go on. -/
theorem trans (hpq : p.Advances q) (hqr : q.Advances r) : p.Advances r where
  toGrows := hpq.toGrows.trans hqr.toGrows
  inProgress n h := hqr.inProgress n (hpq.inProgress n h)
  fresh n h := by
    cases hq : q.slot n with
    | none => exact hqr.fresh n hq
    | some s =>
      cases s with
      | inProgress => exact absurd hq (hpq.fresh n h)
      | done id => rw [hqr.done n id hq]; simp

/-- A native that has a slot keeps it. -/
theorem slot_eq (h : p.Advances q) {s : Slot} (hs : p.slot n = some s) :
    q.slot n = some s := by
  cases s with
  | inProgress => exact h.inProgress n hs
  | done id => exact h.done n id hs

/-- A native that was begun stays in progress. -/
theorem slot_begun (h : (p.begin n).Advances q) : q.slot n = some .inProgress :=
  h.inProgress n (slot_begin_self p n)

/-- A native in progress afterwards was in progress before. -/
theorem inProgress_before (h : p.Advances q) (hq : q.slot n = some .inProgress) :
    p.slot n = some .inProgress := by
  cases hp : p.slot n with
  | none => exact absurd hq (h.fresh n hp)
  | some s =>
    rw [h.slot_eq hp] at hq
    exact hq

theorem push (p : Pool) (e : Entry) : p.Advances (p.push e).2 :=
  ⟨Grows.push p e, fun _ h => h, fun n h hi => by simp [h] at hi⟩

theorem intern (p : Pool) (e : Entry) : p.Advances (p.intern e).2 where
  toGrows := Grows.intern p e
  inProgress n h := by rw [slot_intern]; exact h
  fresh n h := by rw [slot_intern, h]; simp

/-- **From the begin of a conversion to its end.**  The native is in progress while the pool
advances, and done with what was added. -/
theorem finish {id : EntryId} (hn : p.slot n = none) (hr : (p.begin n).Advances r)
    (hg : r.Grows r') (hs : ∀ m, r'.slot m = r.slot m) : p.Advances (r'.finish n id) := by
  have hin : r'.slot n = some .inProgress := by
    rw [hs]
    exact hr.slot_begun
  have hfin : r'.Grows (r'.finish n id) :=
    Grows.setSlot _ fun id' hd => by simp [hin] at hd
  refine ⟨((Grows.begin hn).trans hr.toGrows).trans (hg.trans hfin), fun m hm => ?_,
    fun m hm => ?_⟩
  · -- what was in progress before is not `n`
    have hne : m ≠ n := fun he => by simp [he, hn] at hm
    rw [slot_finish_of_ne hne, hs]
    exact hr.inProgress m ((slot_begin_of_ne hne).trans hm)
  · by_cases hne : m = n
    · -- `n` is done, not in progress
      subst hne
      rw [slot_finish_self]
      simp
    · rw [slot_finish_of_ne hne, hs]
      exact hr.fresh m ((slot_begin_of_ne hne).trans hm)

/-- **From the begin of a conversion to its failure.**  The native is in progress while the pool
advances, and has no slot afterwards. -/
theorem abandon (hn : p.slot n = none) (hr : (p.begin n).Advances r) :
    p.Advances (r.abandon n) := by
  refine ⟨((Grows.begin hn).trans hr.toGrows).trans (Grows.abandon r n), fun m hm => ?_,
    fun m hm => ?_⟩
  · -- what was in progress before is not `n`
    have hne : m ≠ n := fun he => by simp [he, hn] at hm
    rw [slot_abandon_of_ne hne]
    exact hr.inProgress m ((slot_begin_of_ne hne).trans hm)
  · by_cases hne : m = n
    · subst hne
      rw [slot_abandon_of_inProgress hr.slot_begun]
      simp
    · rw [slot_abandon_of_ne hne]
      exact hr.fresh m ((slot_begin_of_ne hne).trans hm)

end Advances

end RpcSchema.Pool
