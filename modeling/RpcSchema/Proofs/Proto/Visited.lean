/-
  RpcSchema.Proofs.Proto.Visited
  ──────────────────────────────
  **WHAT IS NAMED HAS BEEN VISITED.**

  Three walks go through the pool of a schema: the search for definitions,
  the search for wrappers, and the writing of types.  The first visits
  everything that the other two stop at: an entry that is visited has
  visited entries in its element positions, and so have the containers
  that are nested in it.

  Main statements: `visitOrder_closed` (the search misses no part),
  `element_mem_visitOrder` and `container_mem_visitOrder` (nor what
  wrappers hold).
-/
import RpcSchema.Proofs.Proto.WrapperNames

namespace RpcSchema

namespace Pool

variable {p : Pool} {roots definitions : List EntryId} {a c id x : EntryId}

/-! ## §1. The search for definitions. -/

/-- What was not handed out leads nowhere. -/
theorem successors_of_not_mem_ids (id : EntryId) (h : id ∉ p.ids) : p.successors id = [] := by
  have hentry : p.entry id = .any := by
    by_contra hne
    exact h (mem_ids.2 (has_of_entry_ne_any hne))
  simp [successors, hentry, Entry.parts]

theorem root_mem_visitOrder (h : x ∈ roots) : p.resolve x ∈ p.visitOrder roots :=
  (Graph.mem_order_iff successors_of_not_mem_ids).2
    ⟨p.resolve x, List.mem_map.2 ⟨x, h, rfl⟩, .refl⟩

/-- **The search misses no part.** -/
theorem visitOrder_closed (ha : a ∈ p.visitOrder roots) (hx : x ∈ (p.entry a).parts) :
    p.resolve x ∈ p.visitOrder roots := by
  obtain ⟨root, hroot, hpath⟩ := (Graph.mem_order_iff successors_of_not_mem_ids).1 ha
  refine (Graph.mem_order_iff successors_of_not_mem_ids).2 ⟨root, hroot, hpath.tail ?_⟩
  exact List.mem_map.2 ⟨x, hx, rfl⟩

theorem mem_reachable_iff :
    a ∈ p.reachable roots ↔ a ∈ p.visitOrder roots ∧ (p.entry a).isDefinition = true :=
  List.mem_filter

/-! ## §2. Element positions. -/

/-- Optional markers are stripped off inside what is visited. -/
theorem stripWithin_mem_visitOrder (n : Nat) (ha : a ∈ p.visitOrder roots) :
    p.stripWithin n a ∈ p.visitOrder roots := by
  induction n generalizing a with
  | zero => exact ha
  | succ n ih =>
    unfold stripWithin
    split
    · rename_i inner hopt
      exact ih (visitOrder_closed ha (by simp [hopt, Entry.parts]))
    · exact ha

theorem element_mem_visitOrder (h : p.resolve x ∈ p.visitOrder roots) :
    p.element x ∈ p.visitOrder roots :=
  stripWithin_mem_visitOrder _ h

/-- The element of a list and the value of a map are parts. -/
theorem mem_parts_of_elementPosition {e : Entry} (h : elementPosition e = some x) :
    x ∈ e.parts := by
  cases e with
  | array of =>
    obtain rfl := Option.some.inj h
    exact List.mem_cons_self
  | map key value =>
    obtain rfl := Option.some.inj h
    exact List.mem_cons_of_mem _ List.mem_cons_self
  | _ => cases h

/-- What stands in an element position is visited. -/
theorem inner_mem_visitOrder (ha : a ∈ p.visitOrder roots)
    (h : elementPosition (p.entry a) = some x) : p.element x ∈ p.visitOrder roots :=
  element_mem_visitOrder (visitOrder_closed ha (mem_parts_of_elementPosition h))

/-- What is no optional is its own element. -/
theorem element_of_not_optional (h : ∀ y, p.entry (p.resolve x) ≠ .optional y) :
    p.element x = p.resolve x := by
  unfold element stripWithin
  split
  · rename_i y hy
    exact absurd hy (h y)
  · rfl

end Pool

namespace Source

variable {s : Source} {p : Pool} {id x y c : EntryId}

/-- Only the builtin `error` is optional, and it is a string. -/
theorem Sound.element_of_optional (hp : s.Sound p) (h : p.entry (p.resolve x) = .optional y) :
    y = .scalar .string ∧ p.element x = .scalar .string := by
  obtain rfl := hp.option _ _ h
  refine ⟨rfl, ?_⟩
  unfold Pool.element Pool.stripWithin
  simp only [h, hp.resolve_scalar]
  cases p.size with
  | zero => rfl
  | succ n => simp only [Pool.stripWithin, hp.base.scalar]

/-- **An element position is its own element position.** -/
theorem Sound.element_element (hp : s.Sound p) (x : EntryId) :
    p.element (p.element x) = p.element x := by
  by_cases hopt : ∃ y, p.entry (p.resolve x) = .optional y
  · obtain ⟨y, hy⟩ := hopt
    rw [(hp.element_of_optional hy).2, Pool.element_of_not_optional, hp.resolve_scalar]
    simp [hp.resolve_scalar, hp.base.scalar]
  · -- what `x` resolves to resolves to itself
    have hnot : ∀ y, p.entry (p.resolve x) ≠ .optional y := fun y hy => hopt ⟨y, hy⟩
    have hself : p.resolve (p.resolve x) = p.resolve x :=
      (Pool.resolve_eq_of_leads hp.flat (p.leads_resolve x)).symm
    rw [Pool.element_of_not_optional hnot, Pool.element_of_not_optional (by rwa [hself]), hself]

theorem Sound.isContainer_element (hp : s.Sound p) (x : EntryId) :
    p.isContainer (p.element x) = Pool.isContainerEntry (p.entry (p.element x)) := by
  rw [Pool.isContainer, hp.element_element]

/-- The container in the element position of a list or a map is nested in it. -/
theorem Sound.nest_of_elementPosition (hp : s.Sound p)
    (h : Pool.elementPosition (p.entry (p.element id)) = some x)
    (hc : Pool.isContainerEntry (p.entry (p.element x)) = true) :
    p.nest? id = some (p.element x) := by
  unfold Pool.nest?
  rw [h]
  dsimp only
  rw [hp.isContainer_element, if_pos hc]

end Source

/-! ## §3. The search for wrappers. -/

namespace Pool

variable {p : Pool} {roots definitions : List EntryId} {a c id x : EntryId}


/-- A wrapper was there or holds one of the containers. -/
theorem mem_addWrappers {found : List Wrapper} {containers : List EntryId} {w : Wrapper}
    (h : w ∈ p.addWrappers found containers) : w ∈ found ∨ w.container ∈ containers := by
  -- on the containers still to come; the list of wrappers only grows
  induction containers generalizing found with
  | nil => exact Or.inl h
  | cons c rest ih =>
    unfold addWrappers at h
    dsimp only at h
    split at h
    · exact Or.inl h
    · rcases ih h with hfound | hrest
      · rcases List.mem_append.1 hfound with hfound | hlast
        · exact Or.inl hfound
        · rw [List.mem_singleton.1 hlast]
          exact Or.inr List.mem_cons_self
      · exact Or.inr (List.mem_cons_of_mem c hrest)

theorem mem_foldl_addWrappers {types : List EntryId} {found : List Wrapper} {w : Wrapper}
    (h : w ∈ types.foldl (fun found type => p.addWrappers found (p.nested type)) found) :
    w ∈ found ∨ ∃ type ∈ types, w.container ∈ p.nested type := by
  -- on the types still to come, with the wrappers found so far
  induction types generalizing found with
  | nil => exact Or.inl h
  | cons type types ih =>
    rcases ih h with h | ⟨other, hother, hw⟩
    · rcases mem_addWrappers h with h | h
      · exact Or.inl h
      · exact Or.inr ⟨type, List.mem_cons_self, h⟩
    · exact Or.inr ⟨other, List.mem_cons_of_mem type hother, hw⟩

/-- A wrapper holds a container nested in a field type. -/
theorem exists_nested_of_mem_wrappers {w : Wrapper} (h : w ∈ p.wrappers definitions) :
    ∃ type ∈ p.typesOf definitions, w.container ∈ p.nested type :=
  (mem_foldl_addWrappers (Sequence.mem_sortBy.1 h)).resolve_left List.not_mem_nil

/-- The fields of definitions have types that are looked through. -/
theorem mem_typesOf {name : String} {fields : List MessageField} {f : MessageField}
    (ha : a ∈ definitions) (hd : p.entry a = .definition (.message name fields))
    (hf : f ∈ fields) : f.type ∈ p.typesOf definitions := by
  refine List.mem_flatMap.2 ⟨a, ha, ?_⟩
  rw [resolved, resolve_of_not_reference (by rw [hd]; rfl), hd]
  exact List.mem_map.2 ⟨f, hf, rfl⟩

/-- The types of the fields of visited messages are visited. -/
theorem fieldType_mem_visitOrder (h : x ∈ p.typesOf (p.reachable roots)) :
    p.resolve x ∈ p.visitOrder roots := by
  obtain ⟨d, hd, hx⟩ := List.mem_flatMap.1 h
  obtain ⟨hvisited, hdef⟩ := mem_reachable_iff.1 hd
  obtain ⟨e, he⟩ := Entry.isDefinition_iff.1 hdef
  rw [resolved, resolve_of_not_reference (by rw [he]; rfl)] at hx
  refine visitOrder_closed hvisited ?_
  rw [he] at hx ⊢
  cases e with
  | message name fields => exact hx
  | _ => exact absurd hx List.not_mem_nil

end Pool

namespace Source

variable {s : Source} {p : Pool} {roots : List EntryId} {id : EntryId}

/-- The containers nested in what is visited are visited. -/
theorem Sound.nestedWithin_mem_visitOrder (hp : s.Sound p) (n : Nat)
    (hid : p.element id ∈ p.visitOrder roots) :
    ∀ c ∈ p.nestedWithin n id,
      c ∈ p.visitOrder roots ∧ Pool.isContainerEntry (p.entry c) = true := by
  -- on the number of layers below the element
  induction n generalizing id with
  | zero => exact fun c hc => absurd hc List.not_mem_nil
  | succ n ih =>
    intro c hc
    unfold Pool.nestedWithin at hc
    split at hc
    · exact absurd hc List.not_mem_nil
    · rename_i inner hinner
      dsimp only at hc
      split at hc
      · rename_i hcontainer
        rw [hp.isContainer_element] at hcontainer
        have hinside := Pool.inner_mem_visitOrder hid hinner
        rcases List.mem_cons.1 hc with rfl | hc
        · exact ⟨hinside, hcontainer⟩
        · exact ih (by rwa [hp.element_element]) c hc
      · exact absurd hc List.not_mem_nil

/-- **The containers of wrappers are visited.** -/
theorem Sound.container_mem_visitOrder (hp : s.Sound p) {w : Pool.Wrapper}
    (h : w ∈ p.wrappers (p.reachable roots)) :
    w.container ∈ p.visitOrder roots ∧
      Pool.isContainerEntry (p.entry w.container) = true := by
  obtain ⟨type, htype, hw⟩ := Pool.exists_nested_of_mem_wrappers h
  exact hp.nestedWithin_mem_visitOrder _
    (Pool.element_mem_visitOrder (Pool.fieldType_mem_visitOrder htype)) _ hw

end Source

end RpcSchema
