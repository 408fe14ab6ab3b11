/-
  RpcSchema.Sequence.KeepFirst
  ────────────────────────────
  **The first entry of each key.**

  `keepFirst key` drops every entry whose key an earlier entry has.

  Main statements: `keepFirst_sublist` (the order is kept),
  `keepFirst_nodup` (no key is left twice), `mem_map_keepFirst` (no key
  is lost) and `mem_keepFirst_iff` (what is left is the first of its key).
-/

namespace RpcSchema.Sequence

variable {α κ : Type} [DecidableEq κ]

/-- The entries whose key no earlier entry has. -/
def keepFirst (key : α → κ) : List α → List α
  | [] => []
  | a :: rest => a :: (keepFirst key rest).filter fun b => key b ≠ key a

/-- Elements are left out; none is added or moved. -/
theorem keepFirst_sublist (key : α → κ) (l : List α) : (keepFirst key l).Sublist l := by
  induction l with
  | nil => exact List.Sublist.refl _
  | cons a rest ih => exact List.Sublist.cons_cons a (List.filter_sublist.trans ih)

/-- No two elements that are kept share a key. -/
theorem keepFirst_nodup (key : α → κ) (l : List α) : ((keepFirst key l).map key).Nodup := by
  induction l with
  | nil => exact List.nodup_nil
  | cons a rest ih =>
    rw [keepFirst, List.map_cons, List.nodup_cons]
    refine ⟨?_, ih.sublist (List.filter_sublist.map key)⟩
    intro h
    obtain ⟨b, hb, hba⟩ := List.mem_map.1 h
    simpa [hba] using (List.mem_filter.1 hb).2

/-- Every key is kept by some element. -/
theorem mem_map_keepFirst {key : α → κ} {l : List α} {k : κ} :
    k ∈ (keepFirst key l).map key ↔ k ∈ l.map key := by
  induction l with
  | nil => exact Iff.rfl
  | cons a rest ih =>
    rw [keepFirst, List.map_cons, List.map_cons, List.mem_cons, List.mem_cons, ← ih]
    constructor
    · rintro (h | h)
      · exact Or.inl h
      · obtain ⟨b, hb, rfl⟩ := List.mem_map.1 h
        exact Or.inr (List.mem_map.2 ⟨b, (List.mem_filter.1 hb).1, rfl⟩)
    · rintro (h | h)
      · exact Or.inl h
      · -- whatever was filtered out has the key of the head
        by_cases hk : k = key a
        · exact Or.inl hk
        · obtain ⟨b, hb, rfl⟩ := List.mem_map.1 h
          exact Or.inr (List.mem_map.2 ⟨b, List.mem_filter.2 ⟨hb, by simpa using hk⟩, rfl⟩)

/-- A map that keeps the keys keeps which entries are the first of theirs. -/
theorem map_keepFirst {β : Type} {key : α → κ} {key' : β → κ} {f : α → β}
    (h : ∀ a, key' (f a) = key a) (l : List α) :
    (keepFirst key l).map f = keepFirst key' (l.map f) := by
  induction l with
  | nil => rfl
  | cons a rest ih =>
    rw [keepFirst, List.map_cons, List.map_cons, keepFirst, ← ih, List.filter_map, h]
    congr 2
    refine List.filter_congr fun b _ => ?_
    simp [h]

/-- What is left is what is found first under its key. -/
theorem mem_keepFirst_iff {key : α → κ} {l : List α} {a : α} :
    a ∈ keepFirst key l ↔ l.find? (fun b => key b = key a) = some a := by
  induction l with
  | nil => simp [keepFirst]
  | cons b rest ih =>
    rw [keepFirst, List.mem_cons, List.mem_filter, ih]
    by_cases hkey : key b = key a
    · -- `b` has the key, so it is found, and everything else of that key is dropped
      rw [List.find?_cons_of_pos (by simpa using hkey)]
      simp [hkey, eq_comm]
    · have hne : a ≠ b := fun h => hkey (by rw [h])
      rw [List.find?_cons_of_neg (by simpa using hkey)]
      simp [hne, Ne.symm hkey]

/-- What is found under a key stands before everything else of it. -/
theorem find?_key_iff {key : α → κ} {l : List α} {k : κ} {a : α} :
    l.find? (fun b => key b = k) = some a ↔
      ∃ i : Nat, l[i]? = some a ∧ key a = k ∧ ∀ j < i, ∀ b, l[j]? = some b → key b ≠ k := by
  rw [List.find?_eq_some_iff_getElem]
  constructor
  · intro h
    obtain ⟨ha, i, hi, rfl, hearlier⟩ := h
    refine ⟨i, List.getElem?_eq_getElem hi, of_decide_eq_true ha, ?_⟩
    intro j hj b hb
    obtain ⟨_, rfl⟩ := List.getElem?_eq_some_iff.1 hb
    simpa using hearlier j hj
  · intro h
    obtain ⟨i, hi, ha, hearlier⟩ := h
    obtain ⟨hlt, hget⟩ := List.getElem?_eq_some_iff.1 hi
    refine ⟨decide_eq_true ha, i, hlt, hget, ?_⟩
    intro j hj
    simpa using hearlier j hj _ (List.getElem?_eq_getElem (Nat.lt_trans hj hlt))

end RpcSchema.Sequence
