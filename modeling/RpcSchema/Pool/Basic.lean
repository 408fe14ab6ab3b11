/-
  RpcSchema.Pool.Basic
  ────────────────────
  **The pool: the schema types of one run, and its conversion cache.**

  Entries are only ever added.  Containers and references are interned;
  every definition is an entry of its own.

  The cache holds at most one slot per native type: in progress while its
  conversion is under way, done with the entry it was converted to.  To
  look up a native type in progress yields a reference to it instead of
  converting it again, which is what makes cyclic declarations finite.

  Main statements: `entry_intern`, `slot_setSlot_self`,
  `slot_setSlot_of_ne`, `slot_abandon_of_ne`.
-/
import RpcSchema.Pool.Entry
import RpcSchema.Sequence.Association

namespace RpcSchema

/-- The state of one conversion. -/
inductive Slot where
  | inProgress
  | done (id : EntryId)
  deriving DecidableEq, Repr

/-- The entries of a schema, and what became of the native types that were converted into it. -/
structure Pool where
  entries : Array Entry
  /-- One slot per native type at most. -/
  slots : List (NativeId × Slot)
  deriving DecidableEq, Repr

namespace Pool

/-! ## §1. Entries. -/

/-- The pool that holds the scalars and the unconstrained value. -/
def start : Pool :=
  ⟨(Scalar.all.map Entry.scalar ++ [Entry.any]).toArray, []⟩

/-- The number of entries. -/
def size (p : Pool) : Nat := p.entries.size

/-- All ids of the pool. -/
def ids (p : Pool) : List EntryId :=
  (List.range p.size).map .entry

/-- The entry behind an id.  An id that was never handed out reads as the unconstrained
value. -/
def entry (p : Pool) : EntryId → Entry
  | .absent => .any
  | .entry i => p.entries.getD i .any

/-- Adds an entry. -/
def push (p : Pool) (e : Entry) : EntryId × Pool :=
  (.entry p.size, { p with entries := p.entries.push e })

/-- The id of a container or reference, added if there is none yet. -/
def intern (p : Pool) (e : Entry) : EntryId × Pool :=
  match p.entries.findIdx? (· = e) with
  | some i => (.entry i, p)
  | none => p.push e

/-- The optional of an entry. -/
def optional (p : Pool) (of : EntryId) : EntryId × Pool :=
  p.intern (.optional of)

/-- The list of an entry. -/
def array (p : Pool) (of : EntryId) : EntryId × Pool :=
  p.intern (.array of)

/-- The map of two entries. -/
def map (p : Pool) (key value : EntryId) : EntryId × Pool :=
  p.intern (.map key value)

/-- A new definition. -/
def define (p : Pool) (d : Definition) : EntryId × Pool :=
  p.push (.definition d)

/-- A new message; no two messages are one, even if they are equal. -/
def message (p : Pool) (name : String) (fields : List MessageField) : EntryId × Pool :=
  p.define (.message name fields)

/-! ## §2. The conversion cache. -/

/-- The slot of a native type. -/
def slot (p : Pool) (n : NativeId) : Option Slot :=
  p.slots.lookup n

/-- Puts a native type into a slot, instead of the one it has. -/
def setSlot (p : Pool) (n : NativeId) (s : Slot) : Pool :=
  { p with slots := (n, s) :: p.slots.filter (·.1 ≠ n) }

/-- The conversion of a native type as far as it is known: nothing without a slot, the result
when it is done, a reference while it is in progress. -/
def lookup (p : Pool) (n : NativeId) : Option EntryId × Pool :=
  match p.slot n with
  | none => (none, p)
  | some (.done id) => (some id, p)
  | some .inProgress =>
    let (id, p) := p.intern (.reference n)
    (some id, p)

/-- Marks a native type as under construction. -/
def begin (p : Pool) (n : NativeId) : Pool :=
  p.setSlot n .inProgress

/-- Records the conversion of a native type. -/
def finish (p : Pool) (n : NativeId) (id : EntryId) : Pool :=
  p.setSlot n (.done id)

/-- Forgets a conversion that failed; one that is done stays. -/
def abandon (p : Pool) (n : NativeId) : Pool :=
  if p.slot n = some .inProgress then { p with slots := p.slots.filter (·.1 ≠ n) } else p

/-- The definitions of the pool, in the order of their ids. -/
def definitions (p : Pool) : List EntryId :=
  p.ids.filter fun id => (p.entry id).isDefinition

/-! ## §3. What adding keeps. -/

@[simp] theorem size_push (p : Pool) (e : Entry) : (p.push e).2.size = p.size + 1 := by
  simp [push, size]

/-- What is pushed is found under its new id. -/
theorem entry_push (p : Pool) (e : Entry) : (p.push e).2.entry (p.push e).1 = e := by
  simp [push, entry, size]

/-- What was there before is the same. -/
theorem entry_push_of_lt (p : Pool) (e : Entry) {i : Nat} (h : i < p.size) :
    (p.push e).2.entry (.entry i) = p.entry (.entry i) := by
  simp only [size] at h
  simp [push, entry, Array.getElem?_push, Nat.ne_of_lt h]

/-- An interned entry is found under its id, whether that is new or not. -/
theorem entry_intern (p : Pool) (e : Entry) : (p.intern e).2.entry (p.intern e).1 = e := by
  unfold intern
  split
  · rename_i i hi
    obtain ⟨hlt, hp, _⟩ := Array.findIdx?_eq_some_iff_getElem.1 hi
    simp only [entry, Array.getD_eq_getD_getElem?, Array.getElem?_eq_getElem hlt,
      Option.getD_some]
    simpa using hp
  · exact entry_push p e

/-- What was there before is the same. -/
theorem entry_intern_of_lt (p : Pool) (e : Entry) {i : Nat} (h : i < p.size) :
    (p.intern e).2.entry (.entry i) = p.entry (.entry i) := by
  unfold intern
  split
  · rfl
  · exact entry_push_of_lt p e h

/-- Interning adds an entry at most. -/
theorem size_le_intern (p : Pool) (e : Entry) : p.size ≤ (p.intern e).2.size := by
  unfold intern
  split
  · exact Nat.le_refl _
  · simp

/-! ## §4. Slots. -/

@[simp] theorem slot_setSlot_self (p : Pool) (n : NativeId) (s : Slot) :
    (p.setSlot n s).slot n = some s := by
  simp [setSlot, slot]

/-- The slots of other natives are the same. -/
theorem slot_setSlot_of_ne {p : Pool} {n m : NativeId} (s : Slot) (h : m ≠ n) :
    (p.setSlot n s).slot m = p.slot m := by
  show List.lookup m ((n, s) :: p.slots.filter (·.1 ≠ n)) = p.slots.lookup m
  rw [Sequence.lookup_cons_of_ne h]
  exact Sequence.lookup_filter_of_ne h _

/-- Giving a conversion up leaves the slots of other natives as they are. -/
theorem slot_abandon_of_ne {p : Pool} {n m : NativeId} (h : m ≠ n) :
    (p.abandon n).slot m = p.slot m := by
  unfold abandon
  split
  · exact Sequence.lookup_filter_of_ne h _
  · rfl

/-- Only a slot in progress is given up; what is done stays done. -/
theorem slot_abandon_self (p : Pool) (n : NativeId) :
    (p.abandon n).slot n = if p.slot n = some .inProgress then none else p.slot n := by
  unfold abandon
  split
  · exact Sequence.lookup_filter_self n _
  · rfl

end Pool

end RpcSchema
