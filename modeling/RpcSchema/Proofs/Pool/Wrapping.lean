/-
  RpcSchema.Proofs.Pool.Wrapping
  ──────────────────────────────
  **WHICH CONTAINERS GET A WRAPPER.**

  The chain of containers nested in a field type is wrapped from the
  outside in, up to the first one whose name is taken; that one and what
  is nested in it are left to the wrapper that has the name.

  So a name stands for the container that was met first under it, and
  every container nested in a field or in a wrapper finds its name taken,
  by itself or by another one.

  Main statement: `wrappers_spec`.
-/
import Mathlib.Data.List.Nodup
import RpcSchema.Pool.Wrapper
import RpcSchema.Proofs.Pool.Resolution

namespace RpcSchema.Pool

variable (p : Pool)

/-! ## §1. Nesting. -/

/-- The list or map in the element position of a list or map. -/
def nest? (id : EntryId) : Option EntryId :=
  match elementPosition (p.entry (p.element id)) with
  | some inner => if p.isContainer (p.element inner) then some (p.element inner) else none
  | none => none

/-- Where nothing is nested there are no nested containers. -/
theorem nestedWithin_of_none {id : EntryId} (h : p.nest? id = none) (n : Nat) :
    p.nestedWithin (n + 1) id = [] := by
  unfold nest? at h
  unfold nestedWithin
  cases he : elementPosition (p.entry (p.element id)) with
  | none => rfl
  | some inner =>
    simp only [he] at h ⊢
    split at h
    · cases h
    · rename_i hc
      rw [if_neg hc]

/-- Where a container is nested it is the first, and those nested in it follow. -/
theorem nestedWithin_of_some {id c : EntryId} (h : p.nest? id = some c) (n : Nat) :
    p.nestedWithin (n + 1) id = c :: p.nestedWithin n c := by
  unfold nest? at h
  conv => lhs; unfold nestedWithin
  cases he : elementPosition (p.entry (p.element id)) with
  | none =>
    rw [he] at h
    cases h
  | some inner =>
    simp only [he] at h ⊢
    -- a container in the element position, and nothing else
    split at h
    · rename_i hc
      cases h
      rw [if_pos hc]
    · cases h

variable {p}

/-- A list or a map is an entry of the pool. -/
theorem has_of_isContainer {id : EntryId} (h : p.isContainer id = true) : p.Has id := by
  by_cases he : p.entry id = .any
  · -- the unconstrained value, which a missing entry reads as, is no container
    have hres : p.resolve id = id := resolve_of_not_reference (by rw [he]; rfl)
    have helem : p.element id = id := by
      unfold element stripWithin
      simp only [hres, he]
    unfold isContainer at h
    rw [helem, he] at h
    cases h
  · exact has_of_entry_ne_any he

/-- What is nested is there. -/
theorem has_of_nest {id c : EntryId} (h : p.nest? id = some c) : p.Has c := by
  unfold nest? at h
  split at h
  · split at h
    · rename_i hc
      cases h
      exact has_of_isContainer hc
    · cases h
  · cases h

/-! ## §2. Names that are taken. -/

/-- What is nested in `id` finds its name taken. -/
def Covers (p : Pool) (found : List Wrapper) (id : EntryId) : Prop :=
  ∀ c, p.nest? id = some c → ∃ w ∈ found, w.name = p.label c

variable {types : List EntryId} {found more : List Wrapper} {id c : EntryId}

theorem Covers.mono (hsub : found ⊆ more) (h : p.Covers found id) : p.Covers more id := by
  intro c hc
  obtain ⟨w, hw, hname⟩ := h c hc
  exact ⟨w, hsub hw, hname⟩

theorem covers_of_none (hc : p.nest? id = none) : p.Covers found id := by
  intro c h
  rw [hc] at h
  cases h

/-- Where a container is nested its label has to be taken. -/
theorem covers_of_some (hc : p.nest? id = some c) (h : ∃ w ∈ found, w.name = p.label c) :
    p.Covers found id := by
  intro c' hc'
  rw [hc] at hc'
  cases hc'
  exact h

/-- A field type, or the container of a wrapper. -/
def IsOuter (types : List EntryId) (found : List Wrapper) (id : EntryId) : Prop :=
  id ∈ types ∨ ∃ w ∈ found, w.container = id

/-- A container of a wrapper stays one. -/
theorem IsOuter.mono (hsub : found ⊆ more) (h : IsOuter types found id) :
    IsOuter types more id := by
  rcases h with h | ⟨w, hw, h⟩
  · exact Or.inl h
  · exact Or.inr ⟨w, hsub hw, h⟩

/-- Wrappers are named after their containers, and these are nested in field types or in other
wrappers. -/
structure Gathered (p : Pool) (types : List EntryId) (found : List Wrapper) : Prop where
  named : ∀ w ∈ found, w.name = p.label w.container
  nested : ∀ w ∈ found, ∃ id, IsOuter types found id ∧ p.nest? id = some w.container

theorem gathered_nil : p.Gathered types [] :=
  ⟨fun _ h => absurd h List.not_mem_nil, fun _ h => absurd h List.not_mem_nil⟩

/-- One more may be gathered for what is nested. -/
theorem Gathered.snoc (h : p.Gathered types found) (hid : IsOuter types found id)
    (hc : p.nest? id = some c) : p.Gathered types (found ++ [⟨p.label c, c⟩]) where
  named w hw := by
    rcases List.mem_append.1 hw with hw | hw
    · exact h.named w hw
    · rw [List.mem_singleton.1 hw]
  nested w hw := by
    -- what was found before is found now
    have hsub : found ⊆ found ++ [⟨p.label c, c⟩] := List.subset_append_left _ _
    rcases List.mem_append.1 hw with hw | hw
    · obtain ⟨a, ha, hnest⟩ := h.nested w hw
      exact ⟨a, ha.mono hsub, hnest⟩
    · rw [List.mem_singleton.1 hw]
      exact ⟨id, hid.mono hsub, hc⟩

/-- What is nested in wrappers finds its name taken. -/
def Closed (p : Pool) (found : List Wrapper) : Prop :=
  ∀ w ∈ found, p.Covers found w.container

/-- The same, but for the wrapper of `id`. -/
def ClosedBut (p : Pool) (found : List Wrapper) (id : EntryId) : Prop :=
  ∀ w ∈ found, w.container = id ∨ p.Covers found w.container

theorem Closed.but (h : p.Closed found) (id : EntryId) : p.ClosedBut found id :=
  fun w hw => Or.inr (h w hw)

theorem ClosedBut.closed (h : p.ClosedBut found id) (hcover : p.Covers found id) :
    p.Closed found := by
  intro w hw
  rcases h w hw with rfl | hw
  · exact hcover
  · exact hw

/-- A new wrapper settles the open one and is open itself. -/
theorem ClosedBut.snoc {w : Wrapper} (h : p.ClosedBut found id)
    (hcover : p.Covers (found ++ [w]) id) : p.ClosedBut (found ++ [w]) w.container := by
  intro v hv
  rcases List.mem_append.1 hv with hv | hv
  · rcases h v hv with rfl | hv
    · exact Or.inr hcover
    · exact Or.inr (hv.mono (List.subset_append_left _ _))
  · exact Or.inl (by rw [List.mem_singleton.1 hv])

/-! ## §3. Wrapping a chain. -/

theorem addWrappers_of_taken {rest : List EntryId} (h : ∃ w ∈ found, w.name = p.label c) :
    p.addWrappers found (c :: rest) = found := by
  unfold addWrappers
  rw [if_pos (by simpa using h)]

theorem addWrappers_of_free {rest : List EntryId} (h : ¬ ∃ w ∈ found, w.name = p.label c) :
    p.addWrappers found (c :: rest) = p.addWrappers (found ++ [⟨p.label c, c⟩]) rest := by
  conv => lhs; unfold addWrappers
  rw [if_neg (by simpa using h)]

/-- **Wrapping a chain leaves nothing out.**  By induction on what is left of the chain; the
containers wrapped on the way have different names, so they are fewer than the entries of the pool
and the chain is not cut short. -/
theorem addWrappers_nestedWithin (n : Nat) (passed : List EntryId)
    (hlen : n + passed.length = p.size + 1) (hnodup : passed.Nodup)
    (hhas : ∀ a ∈ passed, p.Has a) (htaken : ∀ a ∈ passed, ∃ w ∈ found, w.name = p.label a)
    (hid : IsOuter types found id) (hg : p.Gathered types found)
    (hclosed : p.ClosedBut found id)
    (hmore : p.addWrappers found (p.nestedWithin n id) = more) :
    found ⊆ more ∧ p.Gathered types more ∧ p.Covers more id ∧ p.Closed more := by
  induction n generalizing found id passed with
  | zero =>
    -- more containers were wrapped than there are entries
    have hle : passed.length ≤ p.ids.length :=
      hnodup.length_le_of_subset fun a ha => mem_ids.2 (hhas a ha)
    rw [show p.ids.length = p.size from by simp [ids]] at hle
    omega
  | succ n ih =>
    -- the chain ends here
    have hstop : p.Covers found id → found = more →
        found ⊆ more ∧ p.Gathered types more ∧ p.Covers more id ∧ p.Closed more := by
      rintro hcover rfl
      exact ⟨List.Subset.refl _, hg, hcover, hclosed.closed hcover⟩
    cases hc : p.nest? id with
    | none =>
      rw [nestedWithin_of_none p hc] at hmore
      exact hstop (covers_of_none hc) hmore
    | some c =>
      rw [nestedWithin_of_some p hc] at hmore
      by_cases hname : ∃ w ∈ found, w.name = p.label c
      · -- the name is taken
        rw [addWrappers_of_taken hname] at hmore
        exact hstop (covers_of_some hc hname) hmore
      · -- `c` gets a wrapper, and the chain goes on with it
        rw [addWrappers_of_free hname] at hmore
        have hsub : found ⊆ found ++ [⟨p.label c, c⟩] := List.subset_append_left _ _
        have hlast : (⟨p.label c, c⟩ : Wrapper) ∈ found ++ [⟨p.label c, c⟩] := by simp
        have hcover : p.Covers (found ++ [⟨p.label c, c⟩]) id :=
          covers_of_some hc ⟨_, hlast, rfl⟩
        have hpassed : ∀ a ∈ c :: passed, ∃ w ∈ found ++ [⟨p.label c, c⟩],
            w.name = p.label a := by
          intro a ha
          rcases List.mem_cons.1 ha with rfl | ha
          · exact ⟨_, hlast, rfl⟩
          · obtain ⟨w, hw, hwa⟩ := htaken a ha
            exact ⟨w, hsub hw, hwa⟩
        obtain ⟨hkeep, hg', _, hall⟩ := ih (c :: passed) (by rw [List.length_cons]; omega)
          (List.nodup_cons.2 ⟨fun h => hname (htaken c h), hnodup⟩)
          (List.forall_mem_cons.2 ⟨has_of_nest hc, hhas⟩) hpassed
          (Or.inr ⟨_, hlast, rfl⟩) (hg.snoc hid hc) (hclosed.snoc hcover) hmore
        exact ⟨List.Subset.trans hsub hkeep, hg', hcover.mono hkeep, hall⟩

/-! ## §4. Wrapping all field types. -/

/-- **After all field types every nested container finds its name taken.** -/
theorem foldl_addWrappers {rest : List EntryId} (hrest : ∀ id ∈ rest, id ∈ types)
    (hg : p.Gathered types found) (hclosed : p.Closed found)
    (hmore : rest.foldl (fun found type => p.addWrappers found (p.nested type)) found = more) :
    found ⊆ more ∧ p.Gathered types more ∧ (∀ id ∈ rest, p.Covers more id) ∧
      p.Closed more := by
  -- on the field types that are left; what is closed stays so
  induction rest generalizing found with
  | nil =>
    obtain rfl : found = more := hmore
    exact ⟨List.Subset.refl _, hg, fun _ h => absurd h List.not_mem_nil, hclosed⟩
  | cons id rest ih =>
    obtain ⟨hid, hrest⟩ := List.forall_mem_cons.1 hrest
    rw [List.foldl_cons] at hmore
    -- nothing was passed of the chain of the next type
    obtain ⟨hsub, hg₁, hcover, hclosed₁⟩ := addWrappers_nestedWithin (p.size + 1) [] (by simp)
      List.nodup_nil (fun _ h => absurd h List.not_mem_nil) (fun _ h => absurd h List.not_mem_nil)
      (Or.inl hid) hg (hclosed.but id) rfl
    obtain ⟨hsub', hg', hall, hclosed'⟩ := ih hrest hg₁ hclosed₁ hmore
    exact ⟨List.Subset.trans hsub hsub', hg',
      List.forall_mem_cons.2 ⟨hcover.mono hsub', hall⟩, hclosed'⟩

/-- The types of the fields of some messages. -/
def typesOf (p : Pool) (definitions : List EntryId) : List EntryId :=
  definitions.flatMap fun d => fieldTypes (p.resolved d)

/-- **Wrappers are named after containers that are nested in the fields or in other wrappers, and
every such container finds its name taken.** -/
theorem wrappers_spec (p : Pool) (definitions : List EntryId) :
    p.Gathered (p.typesOf definitions) (p.wrappers definitions) ∧
      ∀ id, IsOuter (p.typesOf definitions) (p.wrappers definitions) id →
        p.Covers (p.wrappers definitions) id := by
  obtain ⟨_, hg, hfields, hclosed⟩ : [] ⊆ p.discoverWrappers definitions ∧
      p.Gathered (p.typesOf definitions) (p.discoverWrappers definitions) ∧
      (∀ id ∈ p.typesOf definitions, p.Covers (p.discoverWrappers definitions) id) ∧
      p.Closed (p.discoverWrappers definitions) :=
    foldl_addWrappers (fun _ h => h) gathered_nil (fun _ h => absurd h List.not_mem_nil) rfl
  -- sorting by name leaves the members as they are
  have hmem : ∀ w, w ∈ p.wrappers definitions ↔ w ∈ p.discoverWrappers definitions :=
    fun w => Sequence.mem_sortBy
  have hto : p.discoverWrappers definitions ⊆ p.wrappers definitions := fun w => (hmem w).2
  constructor
  · refine ⟨fun w hw => hg.named w ((hmem w).1 hw), fun w hw => ?_⟩
    obtain ⟨id, hid, hnest⟩ := hg.nested w ((hmem w).1 hw)
    exact ⟨id, hid.mono hto, hnest⟩
  · rintro id (hid | ⟨w, hw, rfl⟩)
    · exact (hfields id hid).mono hto
    · exact (hclosed w ((hmem w).1 hw)).mono hto

end RpcSchema.Pool
