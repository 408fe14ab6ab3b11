/-
  RpcSchema.Sequence.Association
  ──────────────────────────────
  **Lists of pairs as finite maps.**

  The value of a key is that of its first pair; where no key stands twice,
  every pair says what the value of its key is.  Removing a key takes away
  its value and no other.
-/

namespace RpcSchema.Sequence

variable {α β : Type} [BEq α] [LawfulBEq α]

/-- An entry of another key may be taken off the front. -/
theorem lookup_cons_of_ne {key other : α} (h : other ≠ key) (b : β) (l : List (α × β)) :
    ((key, b) :: l).lookup other = l.lookup other := by
  rw [List.lookup_cons, show (other == key) = false from by simpa using h]

/-- What is looked up is an entry. -/
theorem mem_of_lookup {key : α} {b : β} {l : List (α × β)} (h : l.lookup key = some b) :
    (key, b) ∈ l := by
  obtain ⟨before, later, rfl, _⟩ := List.lookup_eq_some_iff.1 h
  exact List.mem_append_right _ List.mem_cons_self

/-- A lookup fails exactly for what is no key. -/
theorem lookup_eq_none_iff {key : α} {l : List (α × β)} :
    l.lookup key = none ↔ key ∉ l.map (·.1) := by
  rw [List.lookup_eq_none_iff]
  constructor
  · intro h ha
    obtain ⟨x, hx, rfl⟩ := List.mem_map.1 ha
    simpa using h x hx
  · intro h x hx
    simp only [bne_iff_ne]
    exact fun ha => h (List.mem_map.2 ⟨x, hx, ha.symm⟩)

/-- An entry behind a list adds its key to those that are found. -/
theorem lookup_append_eq_none_iff {key other : α} {b : β} {l : List (α × β)} :
    (l ++ [(key, b)]).lookup other = none ↔ l.lookup other = none ∧ key ≠ other := by
  rw [lookup_eq_none_iff, lookup_eq_none_iff, List.map_append, List.mem_append, not_or,
    List.map_singleton, List.mem_singleton, ne_comm]

/-- An entry is looked up if no two entries share a key. -/
theorem lookup_of_mem {key : α} {b : β} {l : List (α × β)} (h : (key, b) ∈ l)
    (hkeys : (l.map (·.1)).Nodup) : l.lookup key = some b := by
  induction l with
  | nil => exact absurd h List.not_mem_nil
  | cons x l ih =>
    obtain ⟨k, c⟩ := x
    obtain ⟨hk, hl⟩ := List.nodup_cons.1 hkeys
    rcases List.mem_cons.1 h with heq | hmem
    · obtain ⟨rfl, rfl⟩ := Prod.mk.inj heq
      exact List.lookup_cons_self
    · -- the key comes only once
      have hne : key ≠ k := by
        rintro rfl
        exact hk (List.mem_map.2 ⟨_, hmem, rfl⟩)
      rw [lookup_cons_of_ne hne]
      exact ih hmem hl

variable [DecidableEq α]

/-- A removed key does not matter to the others. -/
theorem lookup_filter_of_ne {key other : α} (h : other ≠ key) (l : List (α × β)) :
    (l.filter (·.1 ≠ key)).lookup other = l.lookup other := by
  induction l with
  | nil => rfl
  | cons a l ih =>
    obtain ⟨k, b⟩ := a
    -- an entry that is dropped has the key that is not looked for
    by_cases hk : k = key
    · subst hk
      rw [List.filter_cons_of_neg (by simp), ih, List.lookup_cons,
        show (other == k) = false from by simpa using h]
    · rw [List.filter_cons_of_pos (by simpa using hk), List.lookup_cons, List.lookup_cons, ih]

/-- A removed key is not found. -/
theorem lookup_filter_self (key : α) (l : List (α × β)) :
    (l.filter (·.1 ≠ key)).lookup key = none := by
  refine lookup_eq_none_iff.2 fun h => ?_
  obtain ⟨x, hx, rfl⟩ := List.mem_map.1 h
  simpa using (List.mem_filter.1 hx).2

end RpcSchema.Sequence
