/-
  RpcSchema.Proofs.Pool.Containment
  ─────────────────────────────────
  **WHEN A TYPE REFERS TO A NATIVE.**

  The search for a reference goes from an optional and a list to what they
  hold, from a map to its key and its value, and from a reference to
  another native to its result, if there is one.  It does not enter
  definitions, and it ends at the first reference to the native it is
  looking for.

  What is pending is a stack, and an entry that was met before is passed
  over; so the search ends also where containers and references lead back
  to themselves, and it misses nothing.

  Main statements: `looks_search` (the search ends, with what the visited
  entries say) and `refersTo_exact`.
-/
import RpcSchema.Proofs.Pool.Resolution

namespace RpcSchema.Pool

variable {p : Pool} {n : NativeId} {a b : EntryId}

/-! ## §1. Steps inside. -/

/-- From a container to what it holds, and from a reference to a native other than `n` to the
result of that native. -/
inductive Enters (p : Pool) (n : NativeId) (a : EntryId) : EntryId → Prop
  | optional {of : EntryId} (ha : p.entry a = .optional of) : Enters p n a of
  | element {of : EntryId} (ha : p.entry a = .array of) : Enters p n a of
  | key {key value : EntryId} (ha : p.entry a = .map key value) : Enters p n a key
  | value {key value : EntryId} (ha : p.entry a = .map key value) : Enters p n a value
  | result {m : NativeId} {b : EntryId} (ha : p.entry a = .reference m) (hne : m ≠ n)
      (hm : p.slot m = some (.done b)) : Enters p n a b

/-- The steps are those that the search takes. -/
theorem enters_iff : p.Enters n a b ↔ b ∈ p.inside n a := by
  unfold inside
  constructor
  · intro h
    cases h with
    | optional ha | element ha | key ha | value ha => simp [ha]
    | result ha hne hm => simp [ha, hne, hm]
  · intro h
    -- by the entry, as it is searched
    split at h
    · rename_i of ha
      rw [List.mem_singleton.1 h]
      exact .optional ha
    · rename_i of ha
      rw [List.mem_singleton.1 h]
      exact .element ha
    · rename_i key value ha
      rcases List.mem_cons.1 h with hkey | hvalue
      · rw [hkey]
        exact .key ha
      · rw [List.mem_singleton.1 hvalue]
        exact .value ha
    · rename_i m ha
      split at h
      · exact absurd h List.not_mem_nil
      · rename_i hne
        split at h
        · rename_i target hm
          rw [List.mem_singleton.1 h]
          exact .result ha hne hm
        · exact absurd h List.not_mem_nil
    all_goals exact absurd h List.not_mem_nil

/-- Walks of the search are walks of these steps. -/
theorem reaches_inside_iff :
    Graph.Reaches (p.inside n) a b ↔ Relation.ReflTransGen (p.Enters n) a b := by
  have hstep : (fun a b => b ∈ p.inside n a) = p.Enters n := by
    funext a b
    exact propext enters_iff.symm
  unfold Graph.Reaches
  rw [hstep]

/-! ## §2. The search with a stack. -/

/-- With the entries of `pending` on the stack, the next one in front, and those of `seen` met
before, the search for a reference to `n` ends and says whether it has found one.  What an entry
leads to is put on the stack in source order, so that the last of it is taken first. -/
inductive Looks (p : Pool) (n : NativeId) : List EntryId → List EntryId → Bool → Prop
  | nothing (seen : List EntryId) : Looks p n [] seen false
  | again {a : EntryId} {rest seen : List EntryId} {found : Bool} (ha : a ∈ seen)
      (hrest : Looks p n rest seen found) : Looks p n (a :: rest) seen found
  | hit {a : EntryId} {rest seen : List EntryId} (ha : a ∉ seen)
      (hn : p.entry a = .reference n) : Looks p n (a :: rest) seen true
  | enter {a : EntryId} {rest seen : List EntryId} {found : Bool} (ha : a ∉ seen)
      (hn : p.entry a ≠ .reference n)
      (hrest : Looks p n ((p.inside n a).reverse ++ rest) (a :: seen) found) :
      Looks p n (a :: rest) seen found

/-- **The search has one outcome at most.** -/
theorem Looks.unique {pending seen : List EntryId} {found found' : Bool}
    (h : p.Looks n pending seen found) (h' : p.Looks n pending seen found') : found = found' := by
  -- on one search; what is next on the stack decides what the other one does
  induction h generalizing found' with
  | nothing seen =>
    cases h'
    rfl
  | again ha _ ih =>
    cases h' with
    | again _ hrest' => exact ih hrest'
    | hit hnot _ => exact absurd ha hnot
    | enter hnot _ _ => exact absurd ha hnot
  | hit ha hn =>
    cases h' with
    | again hmem _ => exact absurd hmem ha
    | hit _ _ => rfl
    | enter _ hne _ => exact absurd hn hne
  | enter ha hne _ ih =>
    cases h' with
    | again hmem _ => exact absurd hmem ha
    | hit _ hn => exact absurd hn hne
    | enter _ _ hrest' => exact ih hrest'

/-- What an entry puts on the stack, the last of it on top. -/
def stacked (p : Pool) (n : NativeId) (a : EntryId) : List EntryId :=
  (p.inside n a).reverse

theorem stacked_of_not_mem_ids (n : NativeId) (a : EntryId) (h : a ∉ p.ids) :
    p.stacked n a = [] := by
  rw [stacked, inside_of_not_mem_ids n a h, List.reverse_nil]

/-- **The search ends**, and has found a reference if one of the entries it would come by is one.
By induction along the exhaustive search, which the first hit cuts short. -/
theorem looks_search (p : Pool) (n : NativeId) (pending seen : List EntryId) :
    p.Looks n pending seen
      ((Graph.search (p.stacked n) p.ids pending seen).any fun e => p.entry e = .reference n) := by
  -- along the search
  induction pending, seen using Graph.search_induction (p.stacked_of_not_mem_ids n) with
  | nil seen =>
    rw [Graph.search_nil]
    exact .nothing seen
  | seen a rest seen ha ih =>
    rw [Graph.search_cons_of_mem ha]
    exact .again ha ih
  | visit a rest seen ha ih =>
    rw [Graph.search_cons_of_not_mem (p.stacked_of_not_mem_ids n) ha, List.any_cons]
    -- a hit ends the search at once, and settles its answer
    by_cases hn : p.entry a = .reference n
    · rw [decide_eq_true hn, Bool.true_or]
      exact .hit ha hn
    · rw [decide_eq_false hn, Bool.false_or]
      exact .enter ha hn ih

/-- The order in which entries are stacked does not matter for what is reached. -/
theorem mem_order_stacked_iff {id : EntryId} :
    b ∈ Graph.order (p.stacked n) p.ids [id] ↔ b ∈ Graph.order (p.inside n) p.ids [id] := by
  rw [Graph.mem_order_iff (p.stacked_of_not_mem_ids n),
    Graph.mem_order_iff (inside_of_not_mem_ids n)]
  simp only [Graph.Reaches, stacked, List.mem_reverse]

/-! ## §3. What it finds. -/

/-- **Whether a type refers to a native.**

For every pool, however its containers and references lead back to themselves, every type and every
native: the search with a stack ends, with one outcome; and the outcome is that the type refers to
the native exactly if steps inside lead from it to a reference to the native. -/
theorem refersTo_exact (p : Pool) (id : EntryId) (n : NativeId) :
    (∀ found, p.Looks n [id] [] found ↔ found = p.refersTo id n) ∧
    (p.refersTo id n = true ↔
      ∃ e, Relation.ReflTransGen (p.Enters n) id e ∧ p.entry e = .reference n) := by
  have hlooks := p.looks_search n [id] []
  rw [← Graph.order_eq_search] at hlooks
  -- the order in which entries are met does not matter for whether one of them is a hit
  have hsame : (Graph.order (p.stacked n) p.ids [id]).any (fun e => p.entry e = .reference n)
      = p.refersTo id n := by
    unfold refersTo
    rw [Bool.eq_iff_iff, List.any_eq_true, List.any_eq_true]
    simp only [mem_order_stacked_iff]
  rw [hsame] at hlooks
  refine ⟨fun found => ⟨fun h => h.unique hlooks, fun h => h ▸ hlooks⟩, ?_⟩
  rw [refersTo_iff]
  simp only [reaches_inside_iff]

/-- A list that holds a reference to what the list is the result of. -/
example : let p : Pool := ⟨#[.reference (.entry 21), .array (.entry 0)], [(.entry 21, .done (.entry 1))]⟩
    p.refersTo (.entry 1) (.entry 21) = true ∧ p.refersTo (.entry 1) (.entry 22) = false := by
  decide

end RpcSchema.Pool
