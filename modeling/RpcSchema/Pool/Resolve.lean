/-
  RpcSchema.Pool.Resolve
  ──────────────────────
  **Reading through references.**

  A reference to a native type whose conversion is done stands for the
  result.  `resolve` follows such references, at most one more than there
  are slots: a walk that is not going round in a cycle lands on a different
  slot each time.

  A container refers to a native type when a reference to it can be met
  inside without entering a definition.

  The text of a type for diagnostics descends by as many levels as the pool
  has entries, and one more; a type whose containers unfold finitely is
  shown in full (`Pool.display_of_array`, `Pool.display_of_map`).
-/
import RpcSchema.Graph.Search
import RpcSchema.Pool.Basic

namespace RpcSchema.Pool

/-! ## §1. Resolution. -/

/-- Follows references, at most `n` of them. -/
def resolveWithin (p : Pool) : Nat → EntryId → EntryId
  | 0, id => id
  | n + 1, id =>
    match p.entry id with
    | .reference native =>
      match p.slot native with
      | some (.done target) => p.resolveWithin n target
      -- in progress, or given up
      | _ => id
    | _ => id

/-- The entry that `id` stands for; a reference to an unfinished conversion stands for
itself. -/
def resolve (p : Pool) (id : EntryId) : EntryId :=
  if (p.entry id).isReference then p.resolveWithin (p.slots.length + 1) id else id

/-- The entry behind `id` after resolution. -/
def resolved (p : Pool) (id : EntryId) : Entry :=
  p.entry (p.resolve id)

/-- The name of the definition behind `id`. -/
def nameOf? (p : Pool) (id : EntryId) : Option String :=
  (p.resolved id).name?

/-- What is no reference is not followed. -/
theorem resolveWithin_of_not_reference {p : Pool} {id : EntryId} (n : Nat)
    (h : (p.entry id).isReference = false) : p.resolveWithin n id = id := by
  cases n with
  | zero => rfl
  | succ n =>
    unfold resolveWithin
    split
    · rename_i native hn
      simp [hn, Entry.isReference] at h
    · rfl

/-- What is no reference stands for itself. -/
theorem resolve_of_not_reference {p : Pool} {id : EntryId}
    (h : (p.entry id).isReference = false) : p.resolve id = id := by
  simp [resolve, h]

/-- The test in front of the walk only saves it. -/
theorem resolve_eq_resolveWithin (p : Pool) (id : EntryId) :
    p.resolve id = p.resolveWithin (p.slots.length + 1) id := by
  unfold resolve
  split
  · rfl
  · rename_i h
    exact (resolveWithin_of_not_reference _ (by simpa using h)).symm

/-! ## §2. Referring to a native type. -/

/-- The entries one step inside a container, and behind a finished reference other than the one
that is looked for. -/
def inside (p : Pool) (native : NativeId) (id : EntryId) : List EntryId :=
  match p.entry id with
  | .optional of => [of]
  | .array of => [of]
  | .map key value => [key, value]
  | .reference other =>
    -- what is looked for is met here, and need not be entered
    if other = native then []
    else
      match p.slot other with
      | some (.done target) => [target]
      | _ => []
  | .scalar _ | .any | .definition _ => []

/-- Whether the container structure of `id` refers to a native type; definitions are opaque. -/
def refersTo (p : Pool) (id : EntryId) (native : NativeId) : Bool :=
  (Graph.order (p.inside native) p.ids [id]).any fun e => p.entry e = .reference native

/-! ## §3. Diagnostics. -/

/-- The text of a type for diagnostics, unfolding at most `n` levels; what lies deeper is left out
of the text. -/
def displayWithin (p : Pool) : Nat → EntryId → String
  | _, .absent => "<none>"
  | 0, .entry _ => ""
  | n + 1, .entry i =>
    match p.resolved (.entry i) with
    | .scalar s => s.name
    | .optional of => "optional " ++ p.displayWithin n of
    | .array of => "[]" ++ p.displayWithin n of
    | .map key value =>
      "map<" ++ p.displayWithin n key ++ ", " ++ p.displayWithin n value ++ ">"
    | .any => "any"
    | .definition d => d.name
    | .reference native => "<pending " ++ toString native.number ++ ">"

/-- The text of a type for diagnostics, such as `[]User` or `map<string, int32>`.  It is the whole
text where the containers of the type unfold finitely, and cut off where they do not. -/
def display (p : Pool) (id : EntryId) : String :=
  p.displayWithin (p.size + 1) id

end RpcSchema.Pool
