/-
  RpcSchema.Proofs.Pool.Operations
  ────────────────────────────────
  **CALLS ON A POOL, AND WHAT NONE OF THEM CHANGES.**

  A pool is reached by calls: three ask for a container, one adds a
  definition, and four are about the conversion of a native.  They come in
  any order and with any ids.  Whatever they are,

    • an entry stays what it is, and the fixed ids stay where they are;
    • no container and no reference stands there twice, so that the id of
      one tells what was asked for;
    • a definition is an entry of its own, under an id that was not there;
    • where a native stands is what the last call says that had an effect
      on it: begun, finished, or begun and given up again.

  `entries_call` and `slot_call` say what one call does, the rest is
  induction over the calls.

  An id is only a number.  A conversion may be finished with one that the
  pool has not handed out yet, and a lookup then returns it before the
  definition that gets it: `define_repeats_lookup`.

  Main statements: `stands_iff` and `ids_identify`.
-/
import Mathlib.Data.List.Induction
import RpcSchema.Proofs.Pool.Growth

namespace RpcSchema.Pool

/-! ## §1. Calls. -/

/-- A call on a pool. -/
inductive Call where
  | optional (of : EntryId)
  | array (of : EntryId)
  | map (key value : EntryId)
  /-- A message, an enumeration or an interface. -/
  | define (d : Definition)
  | lookup (n : NativeId)
  | begin (n : NativeId)
  | finish (n : NativeId) (id : EntryId)
  | abandon (n : NativeId)
  deriving DecidableEq, Repr

/-- The container a call asks for. -/
def Call.container? : Call → Option Entry
  | .optional of => some (.optional of)
  | .array of => some (.array of)
  | .map key value => some (.map key value)
  | .define _ | .lookup _ | .begin _ | .finish _ _ | .abandon _ => none

/-- The slot a call gives to a native. -/
def Call.slotOf? (c : Call) (n : NativeId) : Option Slot :=
  match c with
  | .begin m => if m = n then some .inProgress else none
  | .finish m id => if m = n then some (.done id) else none
  | .optional _ | .array _ | .map _ _ | .define _ | .lookup _ | .abandon _ => none

/-- What a call returns, and the pool after it. -/
def call (p : Pool) : Call → Option EntryId × Pool
  | .optional of => (some (p.optional of).1, (p.optional of).2)
  | .array of => (some (p.array of).1, (p.array of).2)
  | .map key value => (some (p.map key value).1, (p.map key value).2)
  | .define d => (some (p.define d).1, (p.define d).2)
  | .lookup n => p.lookup n
  | .begin n => (none, p.begin n)
  | .finish n id => (none, p.finish n id)
  | .abandon n => (none, p.abandon n)

/-- The pool after some calls, one after another. -/
def after (p : Pool) : List Call → Pool
  | [] => p
  | c :: rest => (p.call c).2.after rest

variable {p q : Pool} {c c' : Call} {n : NativeId} {id : EntryId} {e : Entry} {calls : List Call}

@[simp] theorem after_cons (p : Pool) (c : Call) (rest : List Call) :
    p.after (c :: rest) = (p.call c).2.after rest := rfl

/-- Calls in two groups lead where the calls lead. -/
theorem after_append (p : Pool) (calls later : List Call) :
    p.after (calls ++ later) = (p.after calls).after later := by
  induction calls generalizing p with
  | nil => rfl
  | cons c rest ih => exact ih (p.call c).2

theorem call_of_container (p : Pool) (h : c.container? = some e) :
    p.call c = (some (p.intern e).1, (p.intern e).2) := by
  cases c <;> cases h <;> rfl

theorem Call.isInterned_of_container (h : c.container? = some e) : e.isInterned = true := by
  cases c <;> cases h <;> rfl

/-- Calls that ask for the same container are the same. -/
theorem Call.eq_of_container (h : c.container? = some e) (h' : c'.container? = some e) :
    c = c' := by
  cases c <;> cases h <;> cases c' <;> cases h' <;> rfl

/-- A slot is given by the call that begins the native, or by one that finishes it. -/
theorem Call.eq_of_slotOf {s : Slot} (h : c.slotOf? n = some s) :
    c = .begin n ∧ s = .inProgress ∨ ∃ id, c = .finish n id ∧ s = .done id := by
  -- only beginning and finishing give a slot
  cases c with
  | begin m =>
    simp only [slotOf?] at h
    split at h
    · rename_i hm
      cases h
      exact Or.inl ⟨hm ▸ rfl, rfl⟩
    · cases h
  | finish m id =>
    simp only [slotOf?] at h
    split at h
    · rename_i hm
      cases h
      exact Or.inr ⟨id, hm ▸ rfl, rfl⟩
    · cases h
  | _ => cases h

/-- A lookup changes the pool only where a conversion is in progress. -/
theorem lookup_cases (p : Pool) (n : NativeId) :
    (p.slot n = none ∧ p.lookup n = (none, p)) ∨
      (∃ id, p.slot n = some (.done id) ∧ p.lookup n = (some id, p)) ∨
      (p.slot n = some .inProgress ∧
        p.lookup n = (some (p.intern (.reference n)).1, (p.intern (.reference n)).2)) := by
  unfold lookup
  split
  · rename_i h
    exact Or.inl ⟨h, rfl⟩
  · rename_i id h
    exact Or.inr (Or.inl ⟨id, h, rfl⟩)
  · rename_i h
    exact Or.inr (Or.inr ⟨h, rfl⟩)

/-! ## §2. Entries stay. -/

/-- Entries are added, and none changes. -/
structure Extends (p q : Pool) : Prop where
  size_le : p.size ≤ q.size
  entry_eq : ∀ id, p.Has id → q.entry id = p.entry id

theorem Extends.refl (p : Pool) : p.Extends p :=
  ⟨Nat.le_refl _, fun _ _ => rfl⟩

theorem Extends.has (h : p.Extends q) (hid : p.Has id) : q.Has id := by
  obtain ⟨i, hi, rfl⟩ := hid
  exact ⟨i, Nat.lt_of_lt_of_le hi h.size_le, rfl⟩

theorem Extends.trans {r : Pool} (h : p.Extends q) (h' : q.Extends r) : p.Extends r where
  size_le := Nat.le_trans h.size_le h'.size_le
  entry_eq id hid := by rw [h'.entry_eq id (h.has hid), h.entry_eq id hid]

theorem Grows.extends (h : p.Grows q) : p.Extends q :=
  ⟨h.size_le, h.entry_eq⟩

/-- Pools with the same entries read alike. -/
theorem entry_of_entries (h : q.entries = p.entries) (id : EntryId) : q.entry id = p.entry id := by
  cases id with
  | absent => rfl
  | entry i =>
    show q.entries.getD i .any = p.entries.getD i .any
    rw [h]

theorem has_of_entries (h : q.entries = p.entries) : q.Has id ↔ p.Has id := by
  simp only [Has, size, h]

theorem extends_of_entries (h : q.entries = p.entries) : p.Extends q where
  size_le := Nat.le_of_eq (congrArg Array.size h).symm
  entry_eq id _ := entry_of_entries h id

/-- **What a call does to the entries**: it interns a container or a reference, adds a definition,
or leaves them alone. -/
theorem entries_call (p : Pool) (c : Call) :
    (∃ e, e.isInterned = true ∧ (p.call c).2 = (p.intern e).2) ∨
      (∃ d, (p.call c).2 = (p.define d).2) ∨ (p.call c).2.entries = p.entries := by
  -- containers and references are interned, definitions are pushed, and slots are no entries
  cases c with
  | optional of => exact Or.inl ⟨.optional of, rfl, rfl⟩
  | array of => exact Or.inl ⟨.array of, rfl, rfl⟩
  | map key value => exact Or.inl ⟨.map key value, rfl, rfl⟩
  | define d => exact Or.inr (Or.inl ⟨d, rfl⟩)
  | lookup n =>
    show _ ∨ _ ∨ (p.lookup n).2.entries = p.entries
    rcases p.lookup_cases n with ⟨_, h⟩ | ⟨_, _, h⟩ | ⟨_, h⟩
    · exact Or.inr (Or.inr (by rw [h]))
    · exact Or.inr (Or.inr (by rw [h]))
    · exact Or.inl ⟨.reference n, rfl, congrArg Prod.snd h⟩
  | begin n => exact Or.inr (Or.inr rfl)
  | finish n id => exact Or.inr (Or.inr rfl)
  | abandon n =>
    refine Or.inr (Or.inr ?_)
    show (p.abandon n).entries = p.entries
    unfold abandon
    split <;> rfl

/-- **No call changes an entry.** -/
theorem extends_call (p : Pool) (c : Call) : p.Extends (p.call c).2 := by
  rcases p.entries_call c with ⟨e, _, h⟩ | ⟨d, h⟩ | h
  · rw [h]
    exact (Grows.intern p e).extends
  · rw [h]
    exact (Grows.push p _).extends
  · exact extends_of_entries h

/-- **No call changes an entry.**  By induction over the calls. -/
theorem extends_after (p : Pool) (calls : List Call) : p.Extends (p.after calls) := by
  induction calls generalizing p with
  | nil => exact Extends.refl p
  | cons c rest ih => exact (p.extends_call c).trans (ih (p.call c).2)

/-! ## §3. Interned entries stand there once. -/

/-- No container and no reference stands there twice. -/
def Single (p : Pool) : Prop :=
  ∀ a b, p.Has a → p.Has b → (p.entry a).isInterned = true → p.entry a = p.entry b → a = b

/-- In the first pool no container stands twice. -/
theorem single_start : start.Single := by
  -- the fixed entries are not interned
  have hfixed : ∀ i < start.size, (start.entry (.entry i)).isInterned = false := by decide
  rintro a b ⟨i, hi, rfl⟩ _ hinterned _
  rw [hfixed i hi] at hinterned
  cases hinterned

/-- An entry may be added that is not interned, or stands nowhere. -/
theorem Single.push (h : p.Single) (hnew : e.isInterned = true → ∀ id, p.Has id → p.entry id ≠ e) :
    (p.push e).2.Single := by
  intro a b ha hb hinterned heq
  rcases entry_push_cases ha with ⟨ha, hea⟩ | ⟨rfl, hea⟩
  · rw [hea] at hinterned heq
    -- an old entry against the new one: the new one would not have been added
    rcases entry_push_cases hb with ⟨hb, heb⟩ | ⟨rfl, heb⟩
    · exact h a b ha hb hinterned (heq.trans heb)
    · rw [heb] at heq
      exact absurd heq (hnew (heq ▸ hinterned) a ha)
  · rw [hea] at hinterned heq
    rcases entry_push_cases hb with ⟨hb, heb⟩ | ⟨rfl, _⟩
    · exact absurd (heq.trans heb).symm (hnew hinterned b hb)
    · rfl

/-- To intern keeps containers single, since one that is there is found. -/
theorem Single.intern (h : p.Single) (e : Entry) : (p.intern e).2.Single := by
  rcases p.intern_cases e with ⟨_, _, _, hi⟩ | ⟨hnone, hi⟩
  · rw [hi]
    exact h
  · rw [hi]
    exact h.push fun _ => hnone

theorem Single.call (h : p.Single) (c : Call) : (p.call c).2.Single := by
  rcases p.entries_call c with ⟨e, _, hc⟩ | ⟨d, hc⟩ | hc
  · rw [hc]
    exact h.intern e
  · rw [hc]
    exact h.push fun hinterned => by cases hinterned
  · intro a b ha hb hinterned heq
    rw [has_of_entries hc] at ha hb
    simp only [entry_of_entries hc] at hinterned heq
    exact h a b ha hb hinterned heq

/-- **Interned entries stand there once.**  By induction over the calls. -/
theorem Single.after (h : p.Single) (calls : List Call) : (p.after calls).Single := by
  induction calls generalizing p with
  | nil => exact h
  | cons c rest ih => exact ih (h.call c)

/-- **An id of an interned entry tells what was asked for**, however much later. -/
theorem Single.intern_eq_iff (h : p.Single) {e' : Entry} (he : e.isInterned = true)
    (calls : List Call) :
    (p.intern e).1 = (((p.intern e).2.after calls).intern e').1 ↔ e = e' := by
  have hlater := ((p.intern e).2.extends_after calls).trans
    (Grows.intern ((p.intern e).2.after calls) e').extends
  have hsingle := ((h.intern e).after calls).intern e'
  have hhas := hlater.has (p.has_intern e)
  -- the entry is still there when the other one is asked for
  have hentry := (hlater.entry_eq _ (p.has_intern e)).trans (p.entry_intern e)
  constructor
  · intro heq
    rw [← hentry, heq, entry_intern]
  · intro heq
    subst heq
    refine hsingle _ _ hhas (has_intern _ _) ?_ ?_
    · rw [hentry]
      exact he
    · rw [hentry, entry_intern]

/-! ## §4. Where a native stands. -/

/-- **What a call does to the slots.** -/
theorem slot_call (p : Pool) (c : Call) (n : NativeId) :
    (p.call c).2.slot n =
      match c.slotOf? n with
      | some s => some s
      | none => if c = .abandon n ∧ p.slot n = some .inProgress then none else p.slot n := by
  -- a slot is given by the call itself, taken away by giving up, or left alone
  cases c with
  | optional of => exact slot_intern p _ n
  | array of => exact slot_intern p _ n
  | map key value => exact slot_intern p _ n
  | define d => rfl
  | lookup m =>
    show (p.lookup m).2.slot n = _
    rcases p.lookup_cases m with ⟨_, h⟩ | ⟨_, _, h⟩ | ⟨_, h⟩
    · rw [h]
      rfl
    · rw [h]
      rfl
    · rw [h]
      exact slot_intern p _ n
  | begin m =>
    by_cases hm : m = n
    · subst hm
      simp [call, Call.slotOf?]
    · simp [call, Call.slotOf?, hm, slot_begin_of_ne (Ne.symm hm)]
  | finish m id =>
    by_cases hm : m = n
    · subst hm
      simp [call, Call.slotOf?]
    · simp [call, Call.slotOf?, hm, slot_finish_of_ne (Ne.symm hm)]
  | abandon m =>
    by_cases hm : m = n
    · subst hm
      simp [call, Call.slotOf?, slot_abandon_self]
    · simp [call, Call.slotOf?, hm, slot_abandon_of_ne (Ne.symm hm)]

/-- Where a native stands after some calls, by the last of them that had an effect on it.  To give
up a conversion has an effect only while it is in progress. -/
inductive Stands (n : NativeId) (calls : List Call) : Option Slot → Prop
  | untouched (h : ∀ c ∈ calls, c.slotOf? n = none) : Stands n calls none
  | begun {before later : List Call} (h : calls = before ++ .begin n :: later)
      (hlater : ∀ c ∈ later, c.slotOf? n = none ∧ c ≠ .abandon n) :
      Stands n calls (some .inProgress)
  | abandoned {before later : List Call} (h : calls = before ++ .begin n :: later)
      (hlater : ∀ c ∈ later, c.slotOf? n = none) (hgone : .abandon n ∈ later) :
      Stands n calls none
  | finished {before later : List Call} {id : EntryId} (h : calls = before ++ .finish n id :: later)
      (hlater : ∀ c ∈ later, c.slotOf? n = none) : Stands n calls (some (.done id))

section Quiet

variable {calls : List Call} (hquiet : ∀ c ∈ calls, c.slotOf? n = none)
include hquiet

/-- A native without a slot gets none from other calls. -/
theorem slot_after_of_none (h : p.slot n = none) : (p.after calls).slot n = none := by
  induction calls generalizing p with
  | nil => exact h
  | cons c rest ih =>
    have hc := hquiet c List.mem_cons_self
    refine ih (fun c hc => hquiet c (List.mem_cons_of_mem _ hc)) ?_
    simp [slot_call, hc, h]

/-- What is finished stays finished, also when it is given up. -/
theorem slot_after_of_done (h : p.slot n = some (.done id)) :
    (p.after calls).slot n = some (.done id) := by
  induction calls generalizing p with
  | nil => exact h
  | cons c rest ih =>
    have hc := hquiet c List.mem_cons_self
    refine ih (fun c hc => hquiet c (List.mem_cons_of_mem _ hc)) ?_
    simp [slot_call, hc, h]

/-- What is in progress stays so until it is given up. -/
theorem slot_after_of_inProgress (h : p.slot n = some .inProgress) :
    (p.after calls).slot n = if .abandon n ∈ calls then none else some .inProgress := by
  -- on the calls, until one of them gives the native up
  induction calls generalizing p with
  | nil => exact h
  | cons c rest ih =>
    have hc := hquiet c List.mem_cons_self
    have hrest : ∀ c ∈ rest, c.slotOf? n = none := fun c hc => hquiet c (List.mem_cons_of_mem _ hc)
    by_cases hgone : c = .abandon n
    · have hnone : (p.call c).2.slot n = none := by
        rw [slot_call, hc]
        simp [hgone, h]
      rw [after_cons, slot_after_of_none hrest hnone, if_pos (by simp [hgone])]
    · have hsame : (p.call c).2.slot n = some .inProgress := by simp [slot_call, hc, hgone, h]
      rw [after_cons, ih hrest hsame]
      simp [Ne.symm hgone]

end Quiet

/-- The slot of a native is what the last call about it left. -/
theorem Stands.slot_eq {calls : List Call} {s : Option Slot} (h : Stands n calls s) :
    (start.after calls).slot n = s := by
  -- the last call that gave the native a slot counts, and what happened after it
  cases h with
  | untouched hquiet => exact slot_after_of_none hquiet rfl
  | begun hcalls hlater =>
    rw [hcalls, after_append, after_cons,
      slot_after_of_inProgress (fun c hc => (hlater c hc).1) (by simp [call]),
      if_neg fun hgone => (hlater _ hgone).2 rfl]
  | abandoned hcalls hlater hgone =>
    rw [hcalls, after_append, after_cons, slot_after_of_inProgress hlater (by simp [call]),
      if_pos hgone]
  | finished hcalls hlater =>
    rw [hcalls, after_append, after_cons]
    exact slot_after_of_done hlater (slot_finish_self _ n _)

/-- One more call.  It begins or finishes the native, gives it up, or says nothing about it. -/
theorem Stands.snoc {calls : List Call} {s : Option Slot} (h : Stands n calls s) (c : Call) :
    Stands n (calls ++ [c]) ((start.after (calls ++ [c])).slot n) := by
  have hslot := slot_call (start.after calls) c n
  rw [h.slot_eq] at hslot
  rw [after_append, after_cons, after, hslot]
  have hquiet : ∀ {later : List Call}, (∀ x ∈ later, x.slotOf? n = none) → c.slotOf? n = none →
      ∀ x ∈ later ++ [c], x.slotOf? n = none := fun hlater hc =>
    List.forall_mem_append.2 ⟨hlater, List.forall_mem_singleton.2 hc⟩
  have hsplit : ∀ {before later : List Call} {x : Call}, calls = before ++ x :: later →
      calls ++ [c] = before ++ x :: (later ++ [c]) := by
    rintro before later x rfl
    rw [List.append_assoc, List.cons_append]
  cases hc : c.slotOf? n with
  | some s =>
    rcases Call.eq_of_slotOf hc with ⟨rfl, rfl⟩ | ⟨id, rfl, rfl⟩
    · exact .begun rfl fun x hx => absurd hx List.not_mem_nil
    · exact .finished rfl fun x hx => absurd hx List.not_mem_nil
  | none =>
    -- the call counts only if it gives the native up, while it is in progress
    show Stands n (calls ++ [c]) (if c = .abandon n ∧ s = some .inProgress then none else s)
    cases h with
    | untouched h =>
      rw [ite_self]
      exact .untouched (hquiet h hc)
    | begun hcalls hlater =>
      by_cases hgone : c = .abandon n
      · rw [if_pos ⟨hgone, rfl⟩]
        exact .abandoned (hsplit hcalls) (hquiet (fun x hx => (hlater x hx).1) hc) (by simp [hgone])
      · rw [if_neg fun h => hgone h.1]
        exact .begun (hsplit hcalls)
          (List.forall_mem_append.2 ⟨hlater, List.forall_mem_singleton.2 ⟨hc, hgone⟩⟩)
    | abandoned hcalls hlater hgone =>
      rw [ite_self]
      exact .abandoned (hsplit hcalls) (hquiet hlater hc) (List.mem_append_left _ hgone)
    | finished hcalls hlater =>
      rw [if_neg fun h => by cases h.2]
      exact .finished (hsplit hcalls) (hquiet hlater hc)

/-- **Where a native stands is what its slot says.** -/
theorem stands_iff {calls : List Call} {s : Option Slot} :
    Stands n calls s ↔ (start.after calls).slot n = s := by
  constructor
  · exact Stands.slot_eq
  · intro h
    subst h
    induction calls using List.reverseRecOn with
    | nil => exact .untouched fun c hc => absurd hc List.not_mem_nil
    | append_singleton calls c ih => exact ih.snoc c

/-! ## §5. Answers. -/

/-- What a call returns is there, unless it is looked up and only said to be there. -/
theorem has_of_answer (h : (p.call c).1 = some id) :
    (p.call c).2.Has id ∨ ∃ n, c = .lookup n ∧ p.slot n = some (.done id) := by
  have hintern : ∀ e, (some (p.intern e).1 : Option EntryId) = some id → (p.intern e).2.Has id := by
    intro e he
    exact Option.some.inj he ▸ p.has_intern e
  -- only a lookup answers with what was given to the pool before
  cases c with
  | optional of => exact Or.inl (hintern _ h)
  | array of => exact Or.inl (hintern _ h)
  | map key value => exact Or.inl (hintern _ h)
  | define d => exact Or.inl (Option.some.inj h ▸ p.has_push _)
  | lookup n =>
    simp only [call] at h ⊢
    rcases p.lookup_cases n with ⟨_, heq⟩ | ⟨id', hslot, heq⟩ | ⟨_, heq⟩
    · rw [heq] at h
      cases h
    · rw [heq] at h
      cases h
      exact Or.inr ⟨n, rfl, hslot⟩
    · rw [heq] at h ⊢
      exact Or.inl (hintern _ h)
  | begin n => cases h
  | finish n id' => cases h
  | abandon n => cases h

/-- A lookup of a native in progress interns the reference to it. -/
theorem call_lookup_of_inProgress (h : p.slot n = some .inProgress) :
    p.call (.lookup n) = (some (p.intern (.reference n)).1, (p.intern (.reference n)).2) := by
  simp only [call, lookup, h]

/-- The scalars and the unconstrained value stay where they are. -/
theorem fixed_after (calls : List Call) :
    (∀ s, (start.after calls).Has (.scalar s) ∧ (start.after calls).entry (.scalar s) = .scalar s) ∧
      (start.after calls).Has .any ∧ (start.after calls).entry .any = .any := by
  have hkept := start.extends_after calls
  have hscalar : ∀ s : Scalar, start.Has (.scalar s) ∧ start.entry (.scalar s) = .scalar s := by
    intro s
    exact ⟨⟨s.index, by cases s <;> decide, rfl⟩, by cases s <;> rfl⟩
  have hany : start.Has .any := ⟨8, by decide, rfl⟩
  exact ⟨fun s => ⟨hkept.has (hscalar s).1, (hkept.entry_eq _ (hscalar s).1).trans (hscalar s).2⟩,
    hkept.has hany, hkept.entry_eq _ hany⟩

/-- **Two calls for containers return one id exactly if they are the same call**, however much
lies between them. -/
theorem Single.container_eq_iff (h : p.Single) (hc : c.container? ≠ none)
    (hc' : c'.container? ≠ none) (between : List Call) :
    (((p.call c).2.after between).call c').1 = (p.call c).1 ↔ c' = c := by
  obtain ⟨e, he⟩ := Option.ne_none_iff_exists'.1 hc
  obtain ⟨e', he'⟩ := Option.ne_none_iff_exists'.1 hc'
  rw [call_of_container p he, call_of_container _ he', Option.some.injEq, eq_comm,
    h.intern_eq_iff (Call.isInterned_of_container he) between]
  constructor
  · rintro rfl
    exact Call.eq_of_container he' he
  · -- equal ids stand for equal entries, which come from equal calls
    rintro rfl
    exact Option.some.inj (he.symm.trans he')

/-- **A definition gets an id that was not there**, and that was returned before only where a
native had been finished with it ahead of time. -/
theorem define_new (calls : List Call) (d : Definition) :
    ∃ id, ((start.after calls).call (.define d)).1 = some id ∧ ¬ (start.after calls).Has id ∧
      ∀ before c between, calls = before ++ c :: between →
        ((start.after before).call c).1 = some id →
          ∃ n, c = .lookup n ∧ Stands n before (some (.done id)) := by
  refine ⟨((start.after calls).define d).1, rfl, not_has_push _ _, ?_⟩
  intro before c between hcalls hanswer
  rcases has_of_answer hanswer with hhas | ⟨n, hc, hslot⟩
  · -- what an earlier call left there is there still
    refine absurd ?_ ((start.after calls).not_has_push (.definition d))
    have hkept := ((start.after before).call c).2.extends_after between
    rw [← after_cons, ← after_append, ← hcalls] at hkept
    exact hkept.has hhas
  · exact ⟨n, hc, stands_iff.2 hslot⟩

/-- A lookup answers nothing only of a native that has no slot. -/
theorem lookup_eq_none_iff (p : Pool) (n : NativeId) :
    (p.call (.lookup n)).1 = none ↔ p.slot n = none := by
  show (p.lookup n).1 = none ↔ p.slot n = none
  rcases p.lookup_cases n with ⟨hslot, h⟩ | ⟨_, hslot, h⟩ | ⟨hslot, h⟩
  · simp [h, hslot]
  · simp [h, hslot]
  · simp [h, hslot]

/-- **While a native is in progress, a lookup returns the one reference to it**, and every later
lookup the same. -/
theorem lookup_inProgress (hn : Stands n calls (some .inProgress)) :
    ∃ id, ((start.after calls).call (.lookup n)).1 = some id ∧
      (∀ a, ((start.after calls).call (.lookup n)).2.Has a ∧
        ((start.after calls).call (.lookup n)).2.entry a = .reference n ↔ a = id) ∧
      ∀ later, Stands n (calls ++ .lookup n :: later) (some .inProgress) →
        ((start.after (calls ++ .lookup n :: later)).call (.lookup n)).1 = some id := by
  have hsingle := single_start.after calls
  have hcall := call_lookup_of_inProgress hn.slot_eq
  rw [hcall]
  refine ⟨_, rfl, fun a => ?_, fun later hlater => ?_⟩
  · have hhas := (start.after calls).has_intern (.reference n)
    have hentry := (start.after calls).entry_intern (.reference n)
    constructor
    · rintro ⟨ha, hea⟩
      refine hsingle.intern (.reference n) a _ ha hhas ?_ (hea.trans hentry.symm)
      rw [hea]
      rfl
    · rintro rfl
      exact ⟨hhas, hentry⟩
  · -- the reference is interned, so it is found again later
    rw [call_lookup_of_inProgress hlater.slot_eq, after_append, after_cons, hcall,
      Option.some.injEq]
    exact ((hsingle.intern_eq_iff rfl later).2 rfl).symm

/-- **Ids tell entries apart, whatever the calls.**

After any calls on a new pool: an entry stays under its id and stays what it is; the scalars and the
unconstrained value have the ids they had; no container and no reference stands under two ids; and
of two calls for containers the later one returns the id of the earlier one exactly if they ask for
the same.

A message, an enumeration or an interface gets an id that was not there.  No call before it has
returned this id, except for a lookup of a native that had been finished with it ahead of time.

A lookup returns nothing exactly if the native was never begun or finished, or was given up since;
the id it was finished with; and while it is in progress the one reference to it, at every lookup
the same. -/
theorem ids_identify (calls : List Call) :
    let p := start.after calls
    (∀ later id, p.Has id → (p.after later).Has id ∧ (p.after later).entry id = p.entry id) ∧
    ((∀ s, p.Has (.scalar s) ∧ p.entry (.scalar s) = .scalar s) ∧
      p.Has .any ∧ p.entry .any = .any) ∧
    (∀ a b, p.Has a → p.Has b → (p.entry a).isInterned = true → p.entry a = p.entry b → a = b) ∧
    (∀ c c' between, c.container? ≠ none → c'.container? ≠ none →
      ((((p.call c).2.after between).call c').1 = (p.call c).1 ↔ c' = c)) ∧
    (∀ d, ∃ id, (p.call (.define d)).1 = some id ∧ ¬ p.Has id ∧
      ∀ before c between, calls = before ++ c :: between →
        ((start.after before).call c).1 = some id →
          ∃ n, c = .lookup n ∧ Stands n before (some (.done id))) ∧
    (∀ n, ((p.call (.lookup n)).1 = none ↔ Stands n calls none) ∧
      (∀ id, Stands n calls (some (.done id)) → (p.call (.lookup n)).1 = some id) ∧
      (Stands n calls (some .inProgress) → ∃ id, (p.call (.lookup n)).1 = some id ∧
        (∀ a, (p.call (.lookup n)).2.Has a ∧ (p.call (.lookup n)).2.entry a = .reference n ↔
          a = id) ∧
        ∀ later, Stands n (calls ++ .lookup n :: later) (some .inProgress) →
          ((start.after (calls ++ .lookup n :: later)).call (.lookup n)).1 = some id)) := by
  intro p
  have hsingle : p.Single := single_start.after calls
  -- each part is a lemma about a pool in which no container stands twice
  refine ⟨fun later id hid => ?_, fixed_after calls, hsingle,
    fun c c' between hc hc' => hsingle.container_eq_iff hc hc' between, define_new calls,
    fun n => ⟨?_, fun id hid => ?_, lookup_inProgress⟩⟩
  · have hlater := p.extends_after later
    exact ⟨hlater.has hid, hlater.entry_eq id hid⟩
  · rw [stands_iff]
    exact p.lookup_eq_none_iff n
  · have hslot : p.slot n = some (.done id) := hid.slot_eq
    simp only [call, lookup, hslot]

/-- A definition may get an id that was returned before: the native was finished with it before
there was such an entry. -/
theorem define_repeats_lookup :
    ¬ ∀ (before : List Call) (c : Call) (between : List Call) (d : Definition),
      ((start.after (before ++ c :: between)).call (.define d)).1 ≠ ((start.after before).call c).1 := by
  intro h
  exact h [.begin (.entry 21), .finish (.entry 21) (.entry 9)] (.lookup (.entry 21)) []
    (.message "Late" []) (by decide)

end RpcSchema.Pool
