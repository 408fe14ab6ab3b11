/-
  RpcSchema.Proofs.Proto.Budget
  ─────────────────────────────
  **TYPES WITH A FINITE UNFOLDING.**

  The functions that read a type unfold its containers within a budget, so
  that they end on every pool.  When the containers of a type unfold
  finitely the budget is never met, and the functions satisfy the equations
  that one reads off them:

      element x  =  element y          x resolves to optional y
      label x    =  label y ++ "List"  x is a list of y
      nested x   =  y :: nested y      x is a list of y, and y a container
      display x  =  "[]" ++ display y  x resolves to a list of y

  A type whose containers hold one another has no finite name, and its
  equations have no solution; what is cut off there says nothing.

  Main statements: `element_of_optional`, `label_of_array`, `label_of_map`,
  `nested_of_elementPosition`, `display_of_array` and `display_of_map`.
-/
import RpcSchema.Proofs.Graph.Contraction
import RpcSchema.Proofs.Pool.Chains
import RpcSchema.Proofs.Proto.Visited

namespace RpcSchema.Pool

variable {p : Pool} {a b c x y z : EntryId} {n m : NativeId}

/-! ## §1. Resolving twice. -/

/-- **What does not resolve to anything but a reference does not resolve further.** -/
theorem isReference_resolve_resolve (h : (p.entry (p.resolve x)).isReference = true) :
    (p.entry (p.resolve (p.resolve x))).isReference = true := by
  by_contra hnot
  have hz : (p.entry (p.resolve (p.resolve x))).isReference = false := by simpa using hnot
  -- the chain from `x` ends there, so that it was followed there at once
  have hself : p.resolve x = p.resolve (p.resolve x) :=
    resolve_eq_of_leads_ends ((p.leads_resolve x).trans (p.leads_resolve (p.resolve x)))
      (ends_of_not_reference hz)
  rw [← hself, h] at hz
  cases hz

/-! ## §2. Finite unfoldings. -/

/-- A definition, where unfolding stops. -/
def stops (p : Pool) (a : EntryId) : Bool :=
  (p.entry a).isDefinition

/-- What a container is made of, resolved; nothing for what is no container. -/
def contents (p : Pool) : EntryId → List EntryId :=
  Graph.between p.successors p.stops

theorem contents_eq (h : (p.entry a).isDefinition = false) : p.contents a = p.successors a :=
  Graph.between_of_not_stop h

theorem contents_of_isDefinition (h : (p.entry a).isDefinition = true) : p.contents a = [] :=
  Graph.between_of_stop h

theorem mem_contents (h : (p.entry a).isDefinition = false) (hx : x ∈ (p.entry a).parts) :
    p.resolve x ∈ p.contents a := by
  rw [contents_eq h]
  exact List.mem_map.2 ⟨x, hx, rfl⟩

/-- The containers that begin at an entry unfold finitely; definitions are not unfolded. -/
def Bounded (p : Pool) (a : EntryId) : Prop :=
  Graph.Ends p.contents a

theorem Bounded.part (h : p.Bounded a) (ha : (p.entry a).isDefinition = false)
    (hx : x ∈ (p.entry a).parts) : p.Bounded (p.resolve x) :=
  Graph.Ends.step h (mem_contents ha hx)

theorem bounded_of_isDefinition (h : (p.entry a).isDefinition = true) : p.Bounded a := by
  refine Acc.intro a fun b hb => ?_
  rw [contents_of_isDefinition h] at hb
  exact absurd hb List.not_mem_nil

/-- What has parts that unfold finitely does so. -/
theorem bounded_of_parts (h : ∀ x ∈ (p.entry a).parts, p.Bounded (p.resolve x)) :
    p.Bounded a := by
  cases hdef : (p.entry a).isDefinition with
  | true => exact bounded_of_isDefinition hdef
  | false =>
    refine Acc.intro a fun b hb => ?_
    rw [contents_eq hdef] at hb
    obtain ⟨x, hx, rfl⟩ := List.mem_map.1 hb
    exact h x hx

/-- **The budget of the pool suffices.** -/
theorem Bounded.within (h : p.Bounded a) : Graph.EndsWithin p.contents (p.size + 1) a := by
  have hcontents : ∀ id, id ∉ p.ids → p.contents id = [] := fun id hid => by
    simp [contents, Graph.between, successors_of_not_mem_ids id hid]
  have hwithin := Graph.endsWithin_of_acc hcontents h
  rwa [show p.ids.length = p.size from by simp [ids]] at hwithin

theorem endsWithin_part {k : Nat} (h : Graph.EndsWithin p.contents (k + 1) a)
    (ha : (p.entry a).isDefinition = false) (hx : x ∈ (p.entry a).parts) :
    Graph.EndsWithin p.contents k (p.resolve x) :=
  h _ (mem_contents ha hx)

/-! ## §3. Element positions. -/

/-- Strips optional markers off a resolved entry. -/
def strip (p : Pool) (a : EntryId) : EntryId :=
  p.stripWithin (p.size + 1) a

theorem stripWithin_of_optional (k : Nat) (ha : p.entry a = .optional y) :
    p.stripWithin (k + 1) a = p.stripWithin k (p.resolve y) := by
  conv => lhs; unfold stripWithin
  simp only [ha]

/-- What is no optional is not stripped. -/
theorem stripWithin_of_not_optional (k : Nat) (ha : ∀ y, p.entry a ≠ .optional y) :
    p.stripWithin k a = a := by
  unfold stripWithin
  split
  · rfl
  · split
    · rename_i y hy
      exact absurd hy (ha y)
    · rfl

theorem strip_of_not_optional (ha : ∀ y, p.entry a ≠ .optional y) : p.strip a = a :=
  stripWithin_of_not_optional _ ha

/-- What was stripped unfolds in as many levels as before. -/
theorem endsWithin_stripWithin {k : Nat} (j : Nat) (h : Graph.EndsWithin p.contents k a) :
    Graph.EndsWithin p.contents k (p.stripWithin j a) := by
  induction j generalizing a with
  | zero => exact h
  | succ j ih =>
    unfold stripWithin
    split
    · rename_i y hy
      cases k with
      | zero => exact h.elim
      | succ k =>
        exact ih (endsWithin_part h (by rw [hy]; rfl) (by simp [hy, Entry.parts])).succ
    · exact h

/-- **A budget that suffices to unfold suffices to strip.** -/
theorem stripWithin_succ {k : Nat} (h : Graph.EndsWithin p.contents k a) :
    p.stripWithin (k + 1) a = p.stripWithin k a := by
  induction k generalizing a with
  | zero => exact h.elim
  | succ k ih =>
    -- an optional uses up one level of the way, everything else stops here
    by_cases hopt : ∃ y, p.entry a = .optional y
    · obtain ⟨y, hy⟩ := hopt
      rw [stripWithin_of_optional _ hy, stripWithin_of_optional _ hy]
      exact ih (endsWithin_part h (by rw [hy]; rfl) (by simp [hy, Entry.parts]))
    · have hnot : ∀ y, p.entry a ≠ .optional y := fun y hy => hopt ⟨y, hy⟩
      rw [stripWithin_of_not_optional _ hnot, stripWithin_of_not_optional _ hnot]

/-- With the budget of the pool an optional is stripped of its marker, and what it marks is
stripped. -/
theorem strip_of_optional (h : p.Bounded a) (ha : p.entry a = .optional y) :
    p.strip a = p.strip (p.resolve y) := by
  rw [strip, stripWithin_of_optional _ ha]
  exact (stripWithin_succ (endsWithin_part h.within (by rw [ha]; rfl)
    (by simp [ha, Entry.parts]))).symm

theorem element_of_optional (h : p.Bounded (p.resolve x)) (hx : p.resolved x = .optional y) :
    p.element x = p.element y :=
  strip_of_optional h hx

/-- What was stripped is no optional. -/
theorem strip_not_optional (h : p.Bounded a) : ∀ y, p.entry (p.strip a) ≠ .optional y := by
  induction h with
  | intro a hacc ih =>
    by_cases hopt : ∃ x, p.entry a = .optional x
    · obtain ⟨x, hx⟩ := hopt
      rw [strip_of_optional (Acc.intro a hacc) hx]
      exact ih _ (mem_contents (by rw [hx]; rfl) (by simp [hx, Entry.parts]))
    · have hnot : ∀ x, p.entry a ≠ .optional x := fun x hx => hopt ⟨x, hx⟩
      rwa [strip_of_not_optional hnot]

/-- What stands in an element position is the resolution of a type. -/
theorem exists_resolve_eq_element (p : Pool) (x : EntryId) : ∃ z, p.element x = p.resolve z := by
  have hstrip : ∀ k x, ∃ z, p.stripWithin k (p.resolve x) = p.resolve z := by
    intro k
    induction k with
    | zero => exact fun x => ⟨x, rfl⟩
    | succ k ih =>
      intro x
      unfold stripWithin
      split
      · exact ih _
      · exact ⟨x, rfl⟩
  exact hstrip _ x

/-- **An element position is a container exactly if it is an entry of one.** -/
theorem isContainer_element (h : p.Bounded (p.resolve x)) :
    p.isContainer (p.element x) = isContainerEntry (p.entry (p.element x)) := by
  have hopt : ∀ y, p.entry (p.element x) ≠ .optional y := strip_not_optional h
  cases href : (p.entry (p.element x)).isReference with
  | false =>
    have hres := resolve_of_not_reference href
    rw [isContainer, element_of_not_optional (by rwa [hres]), hres]
  | true =>
    -- a reference that nothing resolves to but a reference
    obtain ⟨z, hz⟩ := p.exists_resolve_eq_element x
    have hagain : (p.entry (p.resolve (p.element x))).isReference = true := by
      rw [hz] at href ⊢
      exact isReference_resolve_resolve href
    have hno : ∀ e : Entry, e.isReference = true → isContainerEntry e = false ∧
        ∀ y, e ≠ .optional y := by
      intro e he
      cases e <;> simp_all [Entry.isReference, isContainerEntry]
    rw [isContainer, element_of_not_optional (hno _ hagain).2, (hno _ hagain).1, (hno _ href).1]

theorem Bounded.element (h : p.Bounded (p.resolve x)) : p.Bounded (p.element x) :=
  (endsWithin_stripWithin _ h.within).ends

theorem endsWithin_element {k : Nat} (h : Graph.EndsWithin p.contents k (p.resolve x)) :
    Graph.EndsWithin p.contents k (p.element x) :=
  endsWithin_stripWithin _ h

/-! ## §4. Names. -/

theorem label_congr (h : p.element x = p.element y) : p.label x = p.label y := by
  unfold label labelWithin
  rw [h]

/-- **A budget that suffices to unfold suffices for the label.** -/
theorem labelWithin_succ {k : Nat} (h : Graph.EndsWithin p.contents k (p.resolve x)) :
    p.labelWithin (k + 1) x = p.labelWithin k x := by
  induction k generalizing x with
  | zero => exact h.elim
  | succ k ih =>
    have helem := endsWithin_element h
    conv => lhs; unfold labelWithin
    conv => rhs; unfold labelWithin
    -- a scalar or a definition ends the label, a list or a map goes on with its parts
    split
    · rfl
    · rename_i of hof
      rw [ih (endsWithin_part helem (by rw [hof]; rfl) (by simp [hof, Entry.parts]))]
    · rename_i key value hmap
      rw [ih (endsWithin_part helem (by rw [hmap]; rfl) (by simp [hmap, Entry.parts])),
        ih (endsWithin_part helem (by rw [hmap]; rfl) (by simp [hmap, Entry.parts]))]
    · rfl
    · rfl
    · rfl
    · rfl

/-- A part of a container is named with the budget of the pool. -/
theorem labelWithin_part (h : p.Bounded (p.resolve x))
    (hx : (p.entry (p.element x)).isDefinition = false)
    (hy : y ∈ (p.entry (p.element x)).parts) : p.labelWithin p.size y = p.label y :=
  (labelWithin_succ (endsWithin_part (endsWithin_element h.within) hx hy)).symm

/-- The label of a list. -/
theorem label_of_array (h : p.Bounded (p.resolve x)) (hx : p.entry (p.element x) = .array y) :
    p.label x = p.label y ++ "List" := by
  conv => lhs; unfold label labelWithin
  simp only [hx]
  rw [labelWithin_part h (by rw [hx]; rfl) (by simp [hx, Entry.parts])]

/-- The label of a map. -/
theorem label_of_map (h : p.Bounded (p.resolve x)) (hx : p.entry (p.element x) = .map y z) :
    p.label x = p.label y ++ p.label z ++ "Map" := by
  conv => lhs; unfold label labelWithin
  simp only [hx]
  rw [labelWithin_part h (by rw [hx]; rfl) (by simp [hx, Entry.parts]),
    labelWithin_part h (by rw [hx]; rfl) (by simp [hx, Entry.parts])]

/-! ## §5. Nested containers. -/

theorem isDefinition_of_elementPosition {e : Entry} (h : elementPosition e = some y) :
    e.isDefinition = false := by
  cases e <;> first | rfl | cases h

theorem Bounded.inner (h : p.Bounded (p.resolve x))
    (hy : elementPosition (p.entry (p.element x)) = some y) : p.Bounded (p.resolve y) :=
  h.element.part (isDefinition_of_elementPosition hy) (mem_parts_of_elementPosition hy)

/-- What is nested in a container is the list or map in its element position. -/
theorem nest_eq_some_iff (h : p.Bounded (p.resolve x)) :
    p.nest? x = some c ↔ ∃ y, elementPosition (p.entry (p.element x)) = some y ∧
      isContainerEntry (p.entry (p.element y)) = true ∧ p.element y = c := by
  unfold nest?
  cases hy : elementPosition (p.entry (p.element x)) with
  | none => simp
  | some y => simp [isContainer_element (h.inner hy)]

/-- What is nested unfolds within one level less. -/
theorem endsWithin_nest {k : Nat} (h : Graph.EndsWithin p.contents (k + 1) (p.resolve x))
    (hc : p.nest? x = some c) : Graph.EndsWithin p.contents k (p.resolve c) := by
  obtain ⟨y, hy, hcontainer, rfl⟩ := (nest_eq_some_iff h.ends).1 hc
  rw [resolve_of_container hcontainer]
  exact endsWithin_element (endsWithin_part (endsWithin_element h)
    (isDefinition_of_elementPosition hy) (mem_parts_of_elementPosition hy))

/-- **A budget that suffices to unfold finds everything that is nested.** -/
theorem nestedWithin_succ {k : Nat} (h : Graph.EndsWithin p.contents k (p.resolve x)) :
    p.nestedWithin (k + 1) x = p.nestedWithin k x := by
  induction k generalizing x with
  | zero => exact h.elim
  | succ k ih =>
    cases hc : p.nest? x with
    | none => rw [nestedWithin_of_none p hc, nestedWithin_of_none p hc]
    | some c =>
      rw [nestedWithin_of_some p hc, nestedWithin_of_some p hc, ih (endsWithin_nest h hc)]

/-- **What is nested in a nested container follows it.** -/
theorem nested_of_some (h : p.Bounded (p.resolve x)) (hc : p.nest? x = some c) :
    p.nested x = c :: p.nested c := by
  rw [nested, nestedWithin_of_some p hc, nested, nestedWithin_succ (endsWithin_nest h.within hc)]

theorem nested_of_none (hc : p.nest? x = none) : p.nested x = [] :=
  nestedWithin_of_none p hc p.size

theorem nested_congr (h : p.element x = p.element y) : p.nested x = p.nested y := by
  unfold nested nestedWithin
  rw [h]

/-- **What is nested in a container**: the list or map in its element position, followed by what
is nested in that. -/
theorem nested_of_elementPosition (h : p.Bounded (p.resolve x))
    (hy : elementPosition (p.entry (p.element x)) = some y) :
    p.nested x = if isContainerEntry (p.entry (p.element y)) then p.element y :: p.nested y
      else [] := by
  split
  · rename_i hc
    rw [nested_of_some h ((nest_eq_some_iff h).2 ⟨y, hy, hc, rfl⟩),
      nested_congr (element_of_container hc)]
  · -- no container there, so nothing is nested
    rename_i hnot
    refine nested_of_none (Option.eq_none_iff_forall_ne_some.2 fun c hc => ?_)
    obtain ⟨y', hy', hcontainer, _⟩ := (nest_eq_some_iff h).1 hc
    rw [hy, Option.some.injEq] at hy'
    exact hnot (hy' ▸ hcontainer)

/-! ## §6. Texts of diagnostics. -/

/-- A larger budget gives the same text. -/
theorem displayWithin_succ {k : Nat} (h : Graph.EndsWithin p.contents k (p.resolve x)) :
    p.displayWithin (k + 1) x = p.displayWithin k x := by
  induction k generalizing x with
  | zero => exact h.elim
  | succ k ih =>
    cases x with
    | absent => rfl
    | entry i =>
      -- one level of either text; what is below it differs in the budget only
      conv => lhs; unfold displayWithin
      conv => rhs; unfold displayWithin
      unfold resolved
      split
      · rfl
      · rename_i of hof
        rw [ih (endsWithin_part h (by rw [hof]; rfl) (by simp [hof, Entry.parts]))]
      · rename_i of hof
        rw [ih (endsWithin_part h (by rw [hof]; rfl) (by simp [hof, Entry.parts]))]
      · rename_i key value hmap
        rw [ih (endsWithin_part h (by rw [hmap]; rfl) (by simp [hmap, Entry.parts])),
          ih (endsWithin_part h (by rw [hmap]; rfl) (by simp [hmap, Entry.parts]))]
      · rfl
      · rfl
      · rfl

/-- A part of a type is shown with the budget of the pool. -/
theorem displayWithin_part (h : p.Bounded (p.resolve x))
    (hx : (p.resolved x).isDefinition = false) (hy : y ∈ (p.resolved x).parts) :
    p.displayWithin p.size y = p.display y :=
  (displayWithin_succ (endsWithin_part h.within hx hy)).symm

/-- How an optional is shown. -/
theorem display_of_optional {i : Nat} (h : p.Bounded (p.resolve (.entry i)))
    (hx : p.resolved (.entry i) = .optional y) :
    p.display (.entry i) = "optional " ++ p.display y := by
  conv => lhs; unfold display displayWithin
  simp only [hx]
  rw [displayWithin_part h (by rw [hx]; rfl) (by simp [hx, Entry.parts])]

/-- How a list is shown. -/
theorem display_of_array {i : Nat} (h : p.Bounded (p.resolve (.entry i)))
    (hx : p.resolved (.entry i) = .array y) : p.display (.entry i) = "[]" ++ p.display y := by
  conv => lhs; unfold display displayWithin
  simp only [hx]
  rw [displayWithin_part h (by rw [hx]; rfl) (by simp [hx, Entry.parts])]

/-- How a map is shown. -/
theorem display_of_map {i : Nat} (h : p.Bounded (p.resolve (.entry i)))
    (hx : p.resolved (.entry i) = .map y z) :
    p.display (.entry i) = "map<" ++ p.display y ++ ", " ++ p.display z ++ ">" := by
  conv => lhs; unfold display displayWithin
  simp only [hx]
  rw [displayWithin_part h (by rw [hx]; rfl) (by simp [hx, Entry.parts]),
    displayWithin_part h (by rw [hx]; rfl) (by simp [hx, Entry.parts])]

end RpcSchema.Pool
