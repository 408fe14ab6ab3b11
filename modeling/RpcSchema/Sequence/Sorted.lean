/-
  RpcSchema.Sequence.Sorted
  ─────────────────────────
  **Ascending order by a key.**

  `sortBy key` sorts by insertion, so that entries of one key keep their
  order and closed instances evaluate in the kernel.  Names are compared
  by code point.

  Main statements: `sortBy_perm` (nothing is lost or added),
  `sortBy_sorted` (the keys ascend, strictly if they are different:
  `sortBy_ascends`), `sortBy_of_sorted` (a sorted list is left alone) and
  `filter_sortBy` (entries of one key keep their order).
-/

namespace RpcSchema.Sequence

variable {α κ : Type}

/-! ## §1. Definition. -/

/-- Puts `a` in front of the first entry whose key is not below its own. -/
def insertBy [LT κ] [DecidableLT κ] (key : α → κ) (a : α) : List α → List α
  | [] => [a]
  | b :: rest => if key b < key a then b :: insertBy key a rest else a :: b :: rest

/-- The entries by ascending key; entries of one key keep their order. -/
def sortBy [LT κ] [DecidableLT κ] (key : α → κ) : List α → List α
  | [] => []
  | a :: rest => insertBy key a (sortBy key rest)

/-! ## §2. The entries are kept. -/

section

variable [LT κ] [DecidableLT κ]

/-- Insertion adds the element and moves nothing else away. -/
theorem insertBy_perm (key : α → κ) (a : α) (l : List α) :
    (insertBy key a l).Perm (a :: l) := by
  induction l with
  | nil => exact List.Perm.refl _
  | cons b rest ih =>
    simp only [insertBy]
    split
    · exact (List.Perm.cons b ih).trans (List.Perm.swap a b rest)
    · exact List.Perm.refl _

/-- Sorting changes nothing but the order. -/
theorem sortBy_perm (key : α → κ) (l : List α) : (sortBy key l).Perm l := by
  induction l with
  | nil => exact List.Perm.refl _
  | cons a rest ih => exact (insertBy_perm key a _).trans (List.Perm.cons a ih)

/-- A sorted list has the same elements. -/
@[simp] theorem mem_sortBy {key : α → κ} {l : List α} {a : α} :
    a ∈ sortBy key l ↔ a ∈ l :=
  (sortBy_perm key l).mem_iff

/-- A map that keeps the keys keeps the order. -/
theorem map_sortBy {β : Type} {key : α → κ} {key' : β → κ} {f : α → β}
    (h : ∀ a, key' (f a) = key a) (l : List α) :
    (sortBy key l).map f = sortBy key' (l.map f) := by
  -- it suffices that insertion commutes with the map
  have hinsert : ∀ a l, (insertBy key a l).map f = insertBy key' (f a) (l.map f) := by
    intro a l
    induction l with
    | nil => rfl
    | cons b rest ih =>
      simp only [insertBy, List.map_cons, h]
      split
      · rw [List.map_cons, ih]
      · rw [List.map_cons, List.map_cons]
  induction l with
  | nil => rfl
  | cons a rest ih => rw [sortBy, hinsert, ih, List.map_cons, sortBy]

end

/-! ## §3. The keys ascend. -/

section

variable [LE κ] [LT κ] [DecidableLT κ] [Std.IsLinearOrder κ] [Std.LawfulOrderLT κ]

/-- Insertion keeps a sorted list sorted. -/
theorem insertBy_sorted (key : α → κ) (a : α) {l : List α}
    (h : l.Pairwise fun x y => key x ≤ key y) :
    (insertBy key a l).Pairwise fun x y => key x ≤ key y := by
  induction l with
  | nil => simp [insertBy]
  | cons b rest ih =>
    rw [List.pairwise_cons] at h
    simp only [insertBy]
    split
    · -- the element passes the head, which is still the least of all
      rename_i hlt
      rw [List.pairwise_cons]
      refine ⟨fun x hx => ?_, ih h.2⟩
      rcases List.mem_cons.1 ((insertBy_perm key a rest).mem_iff.1 hx) with rfl | hx
      · exact Std.le_of_lt hlt
      · exact h.1 x hx
    · rename_i hge
      -- the element stays in front of everything that is not less
      have hab : key a ≤ key b := Std.not_lt.1 hge
      rw [List.pairwise_cons]
      refine ⟨fun x hx => ?_, List.pairwise_cons.2 h⟩
      rcases List.mem_cons.1 hx with rfl | hx
      · exact hab
      · exact Std.le_trans hab (h.1 x hx)

/-- A sorted list is sorted. -/
theorem sortBy_sorted (key : α → κ) (l : List α) :
    (sortBy key l).Pairwise fun x y => key x ≤ key y := by
  induction l with
  | nil => exact List.Pairwise.nil
  | cons a rest ih => exact insertBy_sorted key a ih

/-- Without repeated keys the order is strict. -/
theorem sortBy_ascends (key : α → κ) {l : List α} (h : (l.map key).Nodup) :
    (sortBy key l).Pairwise fun x y => key x < key y := by
  have hnodup : ((sortBy key l).map key).Nodup := ((sortBy_perm key l).map key).nodup_iff.2 h
  rw [List.Nodup, List.pairwise_map] at hnodup
  exact ((sortBy_sorted key l).and hnodup).imp fun hboth => Std.lt_of_le_of_ne hboth.1 hboth.2

/-- What is sorted stays as it is. -/
theorem sortBy_of_sorted {key : α → κ} {l : List α}
    (h : l.Pairwise fun x y => key x ≤ key y) : sortBy key l = l := by
  induction l with
  | nil => rfl
  | cons a rest ih =>
    rw [List.pairwise_cons] at h
    rw [sortBy, ih h.2]
    cases rest with
    | nil => rfl
    | cons b rest => rw [insertBy, if_neg (Std.not_lt.2 (h.1 b List.mem_cons_self))]

end

/-! ## §4. Entries of one key keep their order. -/

section

variable [LE κ] [LT κ] [DecidableLT κ] [Std.LawfulOrderLT κ] [DecidableEq κ]

/-- What is inserted goes in front of the entries of its key. -/
theorem filter_insertBy (key : α → κ) (a : α) (l : List α) (k : κ) :
    (insertBy key a l).filter (fun x => key x = k) = (a :: l).filter fun x => key x = k := by
  induction l with
  | nil => rfl
  | cons b rest ih =>
    simp only [insertBy]
    split
    · rename_i hlt
      rw [List.filter_cons, ih]
      by_cases hb : key b = k
      · -- what it passes has another key
        have ha : key a ≠ k := fun ha => Std.lt_irrefl (ha.trans hb.symm ▸ hlt)
        simp [hb, ha]
      · simp [List.filter_cons, hb]
    · rfl

/-- **Sorting is stable**: elements of one key keep their order. -/
theorem filter_sortBy (key : α → κ) (l : List α) (k : κ) :
    (sortBy key l).filter (fun x => key x = k) = l.filter fun x => key x = k := by
  induction l with
  | nil => rfl
  | cons a rest ih =>
    rw [sortBy, filter_insertBy, List.filter_cons, ih, List.filter_cons]

end

end RpcSchema.Sequence
