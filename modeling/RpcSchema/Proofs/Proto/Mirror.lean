/-
  RpcSchema.Proofs.Proto.Mirror
  ─────────────────────────────
  **THE TEXT OF A SCHEMA IS THAT OF ITS REACHABLE GRAPH.**

  Two schemas mirror each other when a bijection between their reachable
  definitions respects what is written of them: names, members, fields and
  implementations in their order, and types as they are built from lists,
  maps and optional markers, after references have been resolved.  Such
  schemas have the same text.

  So the text does not show which ids the entries of a pool have, in which
  order they were added, what else the pool holds, and whether a type is
  met through a reference.

  The comparison of types is inductive, so it relates no types but those
  with a finite unfolding (`like_self_iff`).

  Main statements: `definitions_eq_map` (mirrored searches find mirrored
  definitions), `document_eq` and `mirrored_text`.
-/
import Mathlib.Data.Set.Function
import Mathlib.Tactic.FinCases
import RpcSchema.Proofs.Proto.Budget
import RpcSchema.Proto.Layout

namespace RpcSchema

/-! ## §1. Schemas that mirror each other. -/

/-- Two resolved types are built alike; `M` says which definitions stand for each other. -/
inductive Pool.Like (p p' : Pool) (M : EntryId → EntryId → Prop) : EntryId → EntryId → Prop
  | scalar {a a' : EntryId} {s : Scalar} (h : p.entry a = .scalar s)
      (h' : p'.entry a' = .scalar s) : Like p p' M a a'
  | any {a a' : EntryId} (h : p.entry a = .any) (h' : p'.entry a' = .any) : Like p p' M a a'
  | pending {a a' : EntryId} {n n' : NativeId} (h : p.entry a = .reference n)
      (h' : p'.entry a' = .reference n') : Like p p' M a a'
  | definition {a a' : EntryId} (h : (p.entry a).isDefinition = true) (hM : M a a') :
      Like p p' M a a'
  | optional {a a' x x' : EntryId} (h : p.entry a = .optional x) (h' : p'.entry a' = .optional x')
      (hx : Like p p' M (p.resolve x) (p'.resolve x')) : Like p p' M a a'
  | array {a a' x x' : EntryId} (h : p.entry a = .array x) (h' : p'.entry a' = .array x')
      (hx : Like p p' M (p.resolve x) (p'.resolve x')) : Like p p' M a a'
  | map {a a' x x' y y' : EntryId} (h : p.entry a = .map x y) (h' : p'.entry a' = .map x' y')
      (hx : Like p p' M (p.resolve x) (p'.resolve x'))
      (hy : Like p p' M (p.resolve y) (p'.resolve y')) : Like p p' M a a'

/-- Two types resolve to types that are built alike. -/
def Pool.Alike (p p' : Pool) (M : EntryId → EntryId → Prop) (x x' : EntryId) : Prop :=
  p.Like p' M (p.resolve x) (p'.resolve x')

/-- Two definitions with the same name and the same members, and with fields or implementations
of types that are alike. -/
inductive Definition.Like (p p' : Pool) (M : EntryId → EntryId → Prop) :
    Definition → Definition → Prop
  | message {fields fields' : List MessageField} (name : String)
      (h : List.Forall₂ (fun f f' => f.name = f'.name ∧ p.Alike p' M f.type f'.type)
        fields fields') : Like p p' M (.message name fields) (.message name fields')
  | enum (name : String) (members : List EnumMember) :
      Like p p' M (.enum name members) (.enum name members)
  | interface {implementations implementations' : List EntryId} (name : String)
      (h : List.Forall₂ (p.Alike p' M) implementations implementations') :
      Like p p' M (.interface name implementations) (.interface name implementations')

namespace Schema

/-- `f` is a bijection between the definitions that two schemas reach, and respects all that is
written of them. -/
structure Mirrors (s s' : Schema) (f : EntryId → EntryId) : Prop where
  service : s.service = s'.service
  package : s.package = s'.package
  options : s.options = s'.options
  methods : List.Forall₂ (fun m m' => m.name = m'.name ∧
    s.pool.Alike s'.pool (f · = ·) m.request m'.request ∧
    s.pool.Alike s'.pool (f · = ·) m.response m'.response) s.methods s'.methods
  bijective : Set.BijOn f {d | d ∈ s.definitions} {d | d ∈ s'.definitions}
  definitions : ∀ a ∈ s.definitions, ∀ d, s.pool.entry a = .definition d →
    ∃ d', s'.pool.entry (f a) = .definition d' ∧ d.Like s.pool s'.pool (f · = ·) d'

/-- The keys of maps are scalars or enums. -/
def PlainKeys (s : Schema) : Prop :=
  ∀ a ∈ s.pool.visitOrder s.roots, ∀ key value, s.pool.entry a = .map key value →
    (∃ c, s.pool.resolved key = .scalar c) ∨
      ∃ name members, s.pool.resolved key = .definition (.enum name members)

end Schema

/-! ## §2. What types that are alike share. -/

/-- Whether a definition is an enum. -/
def Definition.isEnum : Definition → Bool
  | .enum _ _ => true
  | _ => false

namespace Definition.Like

variable {p p' : Pool} {M : EntryId → EntryId → Prop} {d d' : Definition}

theorem name_eq (h : d.Like p p' M d') : d.name = d'.name := by
  cases h <;> rfl

theorem isEnum_eq (h : d.Like p p' M d') : d.isEnum = d'.isEnum := by
  cases h <;> rfl

theorem parts (h : d.Like p p' M d') : List.Forall₂ (p.Alike p' M) d.parts d'.parts := by
  cases h with
  | message name h =>
    rw [Definition.parts, Definition.parts, List.forall₂_map_left_iff, List.forall₂_map_right_iff]
    exact h.imp fun _ _ h => h.2
  | enum name members => exact .nil
  | interface name h => exact h

end Definition.Like

namespace Pool

variable {p p' : Pool} {M : EntryId → EntryId → Prop} {a a' x x' : EntryId}

/-- What stands for each other are definitions of one name, and both are enums or none is. -/
def Pairs (p p' : Pool) (M : EntryId → EntryId → Prop) : Prop :=
  ∀ a a', M a a' → ∃ d d', p.entry a = .definition d ∧ p'.entry a' = .definition d' ∧
    d.name = d'.name ∧ d.isEnum = d'.isEnum

/-- What is built alike unfolds finitely, since the likeness is a tree. -/
theorem Like.bounded_left (h : p.Like p' M a a') : p.Bounded a := by
  induction h with
  | scalar h _ => exact bounded_of_parts (by simp [h, Entry.parts])
  | any h _ => exact bounded_of_parts (by simp [h, Entry.parts])
  | pending h _ => exact bounded_of_parts (by simp [h, Entry.parts])
  | definition h _ => exact bounded_of_isDefinition h
  | optional h _ _ ih => exact bounded_of_parts (by simpa [h, Entry.parts] using ih)
  | array h _ _ ih => exact bounded_of_parts (by simpa [h, Entry.parts] using ih)
  | map h _ _ _ ih₁ ih₂ =>
    exact bounded_of_parts (by simpa [h, Entry.parts] using ⟨ih₁, ih₂⟩)

/-- What is built like something else unfolds finitely as well, definitions being matched. -/
theorem Like.bounded_right (hM : p.Pairs p' M) (h : p.Like p' M a a') : p'.Bounded a' := by
  induction h with
  | scalar _ h => exact bounded_of_parts (by simp [h, Entry.parts])
  | any _ h => exact bounded_of_parts (by simp [h, Entry.parts])
  | pending _ h => exact bounded_of_parts (by simp [h, Entry.parts])
  | definition _ h =>
    obtain ⟨_, d', _, h', _⟩ := hM _ _ h
    exact bounded_of_isDefinition (by rw [h']; rfl)
  | optional _ h _ ih => exact bounded_of_parts (by simpa [h, Entry.parts] using ih)
  | array _ h _ ih => exact bounded_of_parts (by simpa [h, Entry.parts] using ih)
  | map _ h _ _ ih₁ ih₂ =>
    exact bounded_of_parts (by simpa [h, Entry.parts] using ⟨ih₁, ih₂⟩)

/-- **A type can be compared with itself exactly if it unfolds finitely.** -/
theorem like_self_iff : p.Like p (· = ·) a a ↔ p.Bounded a := by
  refine ⟨Like.bounded_left, fun h => ?_⟩
  -- on the finite unfolding, which is what makes the likeness a tree
  induction h with
  | intro a _ ih =>
    have hpart : (p.entry a).isDefinition = false → ∀ x ∈ (p.entry a).parts,
        p.Like p (· = ·) (p.resolve x) (p.resolve x) := fun hdef x hx =>
      ih _ (mem_contents hdef hx)
    cases ha : p.entry a with
    | scalar s => exact .scalar ha ha
    | any => exact .any ha ha
    | reference n => exact .pending ha ha
    | definition d => exact .definition (by rw [ha]; rfl) rfl
    | optional x => exact .optional ha ha (hpart (by rw [ha]; rfl) x (by simp [ha, Entry.parts]))
    | array x => exact .array ha ha (hpart (by rw [ha]; rfl) x (by simp [ha, Entry.parts]))
    | map x y =>
      exact .map ha ha (hpart (by rw [ha]; rfl) x (by simp [ha, Entry.parts]))
        (hpart (by rw [ha]; rfl) y (by simp [ha, Entry.parts]))

/-- Optional markers are stripped off types that are alike together. -/
theorem Like.strip (hM : p.Pairs p' M) (h : p.Like p' M a a') :
    p.Like p' M (p.strip a) (p'.strip a') := by
  -- only optionals are stripped, and they are optionals on both sides
  have hkeep : ∀ {a a'}, p.Like p' M a a' → (∀ y, p.entry a ≠ .optional y) →
      (∀ y, p'.entry a' ≠ .optional y) → p.Like p' M (p.strip a) (p'.strip a') := by
    intro a a' h ha ha'
    rwa [strip_of_not_optional ha, strip_of_not_optional ha']
  -- on the likeness
  induction h with
  | scalar h h' => exact hkeep (.scalar h h') (by simp [h]) (by simp [h'])
  | any h h' => exact hkeep (.any h h') (by simp [h]) (by simp [h'])
  | pending h h' => exact hkeep (.pending h h') (by simp [h]) (by simp [h'])
  | definition h hM' =>
    obtain ⟨d, d', hd, hd', _⟩ := hM _ _ hM'
    exact hkeep (.definition h hM') (by simp [hd]) (by simp [hd'])
  | optional h h' hx ih =>
    rw [strip_of_optional (Like.optional h h' hx).bounded_left h,
      strip_of_optional ((Like.optional h h' hx).bounded_right hM) h']
    exact ih
  | array h h' hx => exact hkeep (.array h h' hx) (by simp [h]) (by simp [h'])
  | map h h' hx hy => exact hkeep (.map h h' hx hy) (by simp [h]) (by simp [h'])

theorem Alike.element (hM : p.Pairs p' M) (h : p.Alike p' M x x') :
    p.Like p' M (p.element x) (p'.element x') :=
  Like.strip hM h

/-- Types that are alike have the same name inside wrapper names. -/
theorem Like.label_eq (hM : p.Pairs p' M) (h : p.Like p' M a a') :
    ∀ x x', p.resolve x = a → p'.resolve x' = a' → p.label x = p'.label x' := by
  -- on the likeness; the label of a container is made of those of its parts
  induction h with
  | scalar h h' =>
    rintro x x' rfl rfl
    rw [label, label, labelWithin, labelWithin, element_of_not_optional (by simp [h]),
      element_of_not_optional (by simp [h']), h, h']
  | any h h' =>
    rintro x x' rfl rfl
    rw [label, label, labelWithin, labelWithin, element_of_not_optional (by simp [h]),
      element_of_not_optional (by simp [h']), h, h']
  | pending h h' =>
    rintro x x' rfl rfl
    rw [label, label, labelWithin, labelWithin, element_of_not_optional (by simp [h]),
      element_of_not_optional (by simp [h']), h, h']
  | definition h hM' =>
    rintro x x' rfl rfl
    obtain ⟨d, d', hd, hd', hname, _⟩ := hM _ _ hM'
    rw [label, label, labelWithin, labelWithin, element_of_not_optional (by simp [hd]),
      element_of_not_optional (by simp [hd']), hd, hd']
    exact hname
  | optional h h' hx ih =>
    rintro x x' rfl rfl
    rw [label_congr (element_of_optional (Like.optional h h' hx).bounded_left h),
      label_congr (element_of_optional ((Like.optional h h' hx).bounded_right hM) h')]
    exact ih _ _ rfl rfl
  | array h h' hx ih =>
    rintro x x' rfl rfl
    rw [label_of_array (Like.array h h' hx).bounded_left
        (by rw [element_of_not_optional (by simp [h]), h]),
      label_of_array ((Like.array h h' hx).bounded_right hM)
        (by rw [element_of_not_optional (by simp [h']), h']), ih _ _ rfl rfl]
  | map h h' hx hy ihx ihy =>
    rintro x x' rfl rfl
    rw [label_of_map (Like.map h h' hx hy).bounded_left
        (by rw [element_of_not_optional (by simp [h]), h]),
      label_of_map ((Like.map h h' hx hy).bounded_right hM)
        (by rw [element_of_not_optional (by simp [h']), h']), ihx _ _ rfl rfl, ihy _ _ rfl rfl]

theorem Alike.label_eq (hM : p.Pairs p' M) (h : p.Alike p' M x x') : p.label x = p'.label x' :=
  Like.label_eq hM h x x' rfl rfl

/-! ## §3. How types that are alike are written. -/

theorem Like.isContainerEntry_eq (hM : p.Pairs p' M) (h : p.Like p' M a a') :
    isContainerEntry (p.entry a) = isContainerEntry (p'.entry a') := by
  cases h with
  | definition _ hM' =>
    obtain ⟨d, d', hd, hd', _⟩ := hM _ _ hM'
    rw [hd, hd']
    rfl
  | scalar h h' | any h h' | pending h h' | optional h h' | array h h' | map h h' =>
    simp only [h, h', isContainerEntry]

/-- Types that are alike are named alike as elements. -/
theorem Alike.elementName_eq (hM : p.Pairs p' M) (h : p.Alike p' M x x') :
    p.elementName x = p'.elementName x' := by
  -- the label is read only where the element is a container
  have hlabel : isContainerEntry (p.entry (p.element x)) = true →
      p.label (p.element x) = p'.label (p'.element x') := fun hc => by
    rw [label_element hc, label_element (by rwa [← (h.element hM).isContainerEntry_eq hM]),
      h.label_eq hM]
  unfold elementName
  cases h.element hM with
  | definition _ hM' =>
    obtain ⟨d, d', hd, hd', hname, _⟩ := hM _ _ hM'
    simp only [hd, hd', hname]
  | scalar h h' | any h h' | pending h h' | optional h h' => simp only [h, h']
  | array h h' | map h h' => simp only [h, h', hlabel (by rw [h]; rfl)]

theorem Alike.keyName_eq (hM : p.Pairs p' M) (h : p.Alike p' M x x') :
    p.keyName x = p'.keyName x' := by
  have hname := h.elementName_eq hM
  unfold keyName
  have hres : p.Like p' M (p.resolve x) (p'.resolve x') := h
  cases hres with
  | definition _ hM' =>
    obtain ⟨d, d', hd, hd', _, henum⟩ := hM _ _ hM'
    simp only [resolved, hd, hd', hname]
    cases d <;> cases d' <;> first | rfl | cases henum
  | scalar h h' | any h h' | pending h h' | optional h h' | array h h' | map h h' =>
    simp only [resolved, h, h', hname]

/-- Containers that are alike have one field type. -/
theorem Like.containerType_eq (hM : p.Pairs p' M) (h : p.Like p' M a a') :
    p.containerType? (p.entry a) = p'.containerType? (p'.entry a') := by
  cases h with
  | definition _ hM' =>
    obtain ⟨d, d', hd, hd', _⟩ := hM _ _ hM'
    rw [hd, hd']
    rfl
  | array h h' hx =>
    simp only [h, h', containerType?, Alike.elementName_eq hM hx]
  | map h h' hx hy =>
    simp only [h, h', containerType?, Alike.keyName_eq hM hx, Alike.elementName_eq hM hy]
  | scalar h h' | any h h' | pending h h' | optional h h' =>
    rw [h, h']
    rfl

/-- **Types that are alike are written alike.** -/
theorem Alike.fieldType_eq (hM : p.Pairs p' M) (h : p.Alike p' M x x') :
    p.fieldType x = p'.fieldType x' := by
  have hname := h.elementName_eq hM
  have hres : p.Like p' M (p.resolve x) (p'.resolve x') := h
  have hcontainer := hres.containerType_eq hM
  unfold fieldType resolved
  -- an optional shows what it marks, anything else shows itself
  cases hres with
  | optional h h' hx =>
    simp only [h, h', (Alike.element hM hx).containerType_eq hM, Alike.elementName_eq hM hx]
  | definition _ hM' =>
    obtain ⟨d, d', hd, hd', _⟩ := hM _ _ hM'
    simp only [hd, hd', hname] at hcontainer ⊢
    rw [hcontainer]
  | scalar h h' | any h h' | pending h h' | array h h' | map h h' =>
    simp only [h, h', hname] at hcontainer ⊢
    rw [hcontainer]

/-- **Definitions that are alike have the same block.** -/
theorem definitionBlock_eq (hM : p.Pairs p' M) {d d' : Definition} (h : d.Like p p' M d') :
    p.definitionBlock d = p'.definitionBlock d' := by
  -- fields and members one by one, each with its name and its type
  have hbody : p.definitionBody d = p'.definitionBody d' := by
    cases h with
    | message name hfields =>
      have hmap := forall₂_map_eq (f := p.messageField) (g := p'.messageField)
        (fun f f' hf => by rw [messageField, messageField, hf.1, hf.2.fieldType_eq hM]) hfields
      rw [definitionBody, definitionBody, hmap]
    | enum name members => rfl
    | interface name himpl =>
      have hmap := forall₂_map_eq (f := p.implementationField) (g := p'.implementationField)
        (fun x x' hx => by rw [implementationField, implementationField, hx.elementName_eq hM])
        himpl
      cases himpl with
      | nil => rfl
      | cons _ _ => exact congrArg BlockBody.oneof hmap
  rw [definitionBlock, definitionBlock, hbody, h.name_eq]

/-! ## §4. The wrappers of types that are alike. -/

/-- Two containers that are alike. -/
def LikeContainer (p p' : Pool) (M : EntryId → EntryId → Prop) (c c' : EntryId) : Prop :=
  p.Like p' M c c' ∧ isContainerEntry (p.entry c) = true

/-- Containers that are alike are types that are. -/
theorem LikeContainer.alike (hM : p.Pairs p' M) {c c' : EntryId} (h : p.LikeContainer p' M c c') :
    p.Alike p' M c c' := by
  have hc' : isContainerEntry (p'.entry c') = true := by
    rw [← h.1.isContainerEntry_eq hM, h.2]
  rw [Alike, resolve_of_container h.2, resolve_of_container hc']
  exact h.1

/-- What is nested in types that are alike is alike. -/
theorem Like.nested_alike (hM : p.Pairs p' M) (h : p.Like p' M a a') :
    ∀ x x', p.resolve x = a → p'.resolve x' = a' →
      List.Forall₂ (p.LikeContainer p' M) (p.nested x) (p'.nested x') := by
  -- a list or map of `y` has nested what stands for `y`, and what is nested in it
  have hinner : ∀ {a a' y y'}, p.Like p' M a a' → elementPosition (p.entry a) = some y →
      elementPosition (p'.entry a') = some y' → p.Alike p' M y y' →
      List.Forall₂ (p.LikeContainer p' M) (p.nested y) (p'.nested y') →
      ∀ x x', p.resolve x = a → p'.resolve x' = a' →
        List.Forall₂ (p.LikeContainer p' M) (p.nested x) (p'.nested x') := by
    rintro a a' y y' h hy hy' hlike hnested x x' rfl rfl
    have hopt : ∀ z, p.entry (p.resolve x) ≠ .optional z := fun z hz => by
      rw [hz] at hy
      cases hy
    have hopt' : ∀ z, p'.entry (p'.resolve x') ≠ .optional z := fun z hz => by
      rw [hz] at hy'
      cases hy'
    have helem := hlike.element hM
    rw [nested_of_elementPosition h.bounded_left (by rwa [element_of_not_optional hopt]),
      nested_of_elementPosition (h.bounded_right hM) (by rwa [element_of_not_optional hopt']),
      ← helem.isContainerEntry_eq hM]
    split
    · rename_i hc
      exact .cons ⟨helem, hc⟩ hnested
    · exact .nil
  have hleaf : ∀ {a a'}, elementPosition (p.entry a) = none → (∀ y, p.entry a ≠ .optional y) →
      elementPosition (p'.entry a') = none → (∀ y, p'.entry a' ≠ .optional y) →
      ∀ x x', p.resolve x = a → p'.resolve x' = a' →
        List.Forall₂ (p.LikeContainer p' M) (p.nested x) (p'.nested x') := by
    rintro a a' ha hopt ha' hopt' x x' rfl rfl
    rw [nested_of_none (by rw [nest?, element_of_not_optional hopt, ha]),
      nested_of_none (by rw [nest?, element_of_not_optional hopt', ha'])]
    exact .nil
  induction h with
  | scalar h h' | any h h' | pending h h' =>
    exact hleaf (by rw [h]; rfl) (by simp [h]) (by rw [h']; rfl) (by simp [h'])
  | definition _ hM' =>
    obtain ⟨d, d', hd, hd', _⟩ := hM _ _ hM'
    exact hleaf (by rw [hd]; rfl) (by simp [hd]) (by rw [hd']; rfl) (by simp [hd'])
  | optional h h' hx ih =>
    rintro x x' rfl rfl
    rw [nested_congr (element_of_optional (Like.optional h h' hx).bounded_left h),
      nested_congr (element_of_optional ((Like.optional h h' hx).bounded_right hM) h')]
    exact ih _ _ rfl rfl
  | array h h' hx ih =>
    exact hinner (.array h h' hx) (by rw [h]; rfl) (by rw [h']; rfl) hx (ih _ _ rfl rfl)
  | map h h' hx hy _ ih =>
    exact hinner (.map h h' hx hy) (by rw [h]; rfl) (by rw [h']; rfl) hy (ih _ _ rfl rfl)

/-- Wrappers of one name that hold containers that are alike. -/
def LikeWrapper (p p' : Pool) (M : EntryId → EntryId → Prop) (w w' : Wrapper) : Prop :=
  w.name = w'.name ∧ p.LikeContainer p' M w.container w'.container

/-- **Wrappers are added alike for containers that are.** -/
theorem addWrappers_like (hM : p.Pairs p' M) {found found' : List Wrapper}
    {containers containers' : List EntryId}
    (hfound : List.Forall₂ (p.LikeWrapper p' M) found found')
    (h : List.Forall₂ (p.LikeContainer p' M) containers containers') :
    List.Forall₂ (p.LikeWrapper p' M) (p.addWrappers found containers)
      (p'.addWrappers found' containers') := by
  -- on the containers, while the wrappers found so far stay alike
  induction h generalizing found found' with
  | nil => exact hfound
  | @cons c c' rest rest' hc _ ih =>
    have hlabel : p.label c = p'.label c' := (hc.alike hM).label_eq hM
    have hnames : found.map (·.name) = found'.map (·.name) :=
      forall₂_map_eq (fun _ _ hw => hw.1) hfound
    -- a label is taken on both sides or on neither
    have htaken : (∃ w ∈ found, w.name = p.label c) ↔ ∃ w ∈ found', w.name = p'.label c' := by
      rw [← List.mem_map, ← List.mem_map, hnames, hlabel]
    by_cases hname : ∃ w ∈ found, w.name = p.label c
    · rw [addWrappers_of_taken hname, addWrappers_of_taken (htaken.1 hname)]
      exact hfound
    · rw [addWrappers_of_free hname, addWrappers_of_free (mt htaken.2 hname)]
      exact ih (List.rel_append hfound (.cons ⟨hlabel, hc⟩ .nil))

/-- **The wrappers of types that are alike are alike, and found in the same order.** -/
theorem foldl_addWrappers_like (hM : p.Pairs p' M) {types types' : List EntryId}
    (h : List.Forall₂ (p.Alike p' M) types types') {found found' : List Wrapper}
    (hfound : List.Forall₂ (p.LikeWrapper p' M) found found') :
    List.Forall₂ (p.LikeWrapper p' M)
      (types.foldl (fun found type => p.addWrappers found (p.nested type)) found)
      (types'.foldl (fun found type => p'.addWrappers found (p'.nested type)) found') :=
  List.rel_foldl (R := p.Alike p' M) (fun _ _ hfound _ _ hx =>
    addWrappers_like hM hfound (Like.nested_alike hM hx _ _ rfl rfl)) hfound h

/-- Wrappers that are alike have one block. -/
theorem wrapperBlock_eq (hM : p.Pairs p' M) {w w' : Wrapper} (h : p.LikeWrapper p' M w w') :
    p.wrapperBlock w = p'.wrapperBlock w' := by
  obtain ⟨hname, hc⟩ := h
  have halike := hc.alike hM
  have hfield : p.wrapperField w = p'.wrapperField w' := by
    have hres : p.Like p' M (p.resolve w.container) (p'.resolve w'.container) := halike
    unfold wrapperField resolved
    cases hres with
    | definition _ hM' =>
      obtain ⟨d, d', hd, hd', _⟩ := hM _ _ hM'
      simp only [hd, hd']
    | scalar h h' | any h h' | pending h h' | optional h h' | array h h' | map h h' =>
      simp only [h, h']
  rw [wrapperBlock, wrapperBlock, hname, hfield, halike.fieldType_eq hM]

end Pool

/-! ## §5. Mirrored searches. -/

namespace Pool

variable {p p' : Pool} {roots : List EntryId} {f : EntryId → EntryId} {a a' : EntryId}

/-- What a search visits unfolds finitely, if the roots and the parts of the definitions do. -/
theorem bounded_of_visited (hroots : ∀ x ∈ roots, p.Bounded (p.resolve x))
    (hparts : ∀ d ∈ p.reachable roots, ∀ x ∈ (p.entry d).parts, p.Bounded (p.resolve x))
    (ha : a ∈ p.visitOrder roots) : p.Bounded a := by
  obtain ⟨root, hroot, hpath⟩ := (Graph.mem_order_iff successors_of_not_mem_ids).1 ha
  obtain ⟨x, hx, rfl⟩ := List.mem_map.1 hroot
  clear ha
  suffices h : p.Bounded a ∧ a ∈ p.visitOrder roots from h.1
  -- on the way to the entry; behind a definition its parts start anew
  induction hpath with
  | refl => exact ⟨hroots x hx, root_mem_visitOrder hx⟩
  | @tail b c _ hbc ih =>
    obtain ⟨y, hy, rfl⟩ := List.mem_map.1 hbc
    refine ⟨?_, visitOrder_closed ih.2 hy⟩
    cases hdef : (p.entry b).isDefinition with
    | true => exact hparts b (mem_reachable_iff.2 ⟨ih.2, hdef⟩) y hy
    | false => exact ih.1.part hdef hy

/-- The definitions that can be met first from an entry. -/
def heads (p : Pool) : EntryId → List EntryId :=
  Graph.heads p.successors p.stops p.ids

/-- The heads of the parts of an entry. -/
def leap (p : Pool) : EntryId → List EntryId :=
  Graph.leap p.successors p.stops p.ids

theorem heads_of_isDefinition (h : (p.entry a).isDefinition = true) : p.heads a = [a] :=
  Graph.heads_of_stop h

theorem heads_of_bounded (hb : p.Bounded a) (h : (p.entry a).isDefinition = false) :
    p.heads a = ((p.entry a).parts.map p.resolve).flatMap p.heads :=
  Graph.heads_of_not_stop successors_of_not_mem_ids hb h

/-- Walks between definitions do not branch where the keys of maps have no parts. -/
theorem narrow_visitOrder (hb : ∀ a ∈ p.visitOrder roots, p.Bounded a)
    (hkeys : ∀ a ∈ p.visitOrder roots, ∀ key value, p.entry a = .map key value →
      (p.resolved key).parts = []) :
    Graph.Narrow p.successors p.stops (· ∈ p.visitOrder roots) where
  closed a b ha hb := by
    obtain ⟨x, hx, rfl⟩ := List.mem_map.1 hb
    exact visitOrder_closed ha hx
  ends := hb
  leaves a ha hstop b hmem := by
    have hdef : (p.entry a).isDefinition = false := hstop
    unfold successors at hmem
    cases he : p.entry a with
    -- the key of a map leads nowhere
    | map key value =>
      rw [he] at hmem
      simp only [Entry.parts, List.map_cons, List.map_nil, List.dropLast_cons_cons,
        List.dropLast_singleton, List.mem_singleton] at hmem
      rw [hmem, successors, ← resolved, hkeys a ha key value he]
      rfl
    | definition d =>
      rw [he] at hdef
      cases hdef
    | _ =>
      rw [he] at hmem
      exact absurd hmem List.not_mem_nil

/-- **The definitions of a schema are found by a search from definition to definition.** -/
theorem reachable_eq_order (hb : ∀ a ∈ p.visitOrder roots, p.Bounded a)
    (hkeys : ∀ a ∈ p.visitOrder roots, ∀ key value, p.entry a = .map key value →
      (p.resolved key).parts = []) :
    p.reachable roots = Graph.order p.leap p.ids ((roots.map p.resolve).flatMap p.heads) :=
  Graph.filter_order successors_of_not_mem_ids (narrow_visitOrder hb hkeys) fun a ha => by
    obtain ⟨x, hx, rfl⟩ := List.mem_map.1 ha
    exact root_mem_visitOrder hx

theorem leap_of_not_mem_ids (a : EntryId) (h : a ∉ p.ids) : p.leap a = [] :=
  Graph.leap_of_not_mem successors_of_not_mem_ids a h

variable {M : EntryId → EntryId → Prop}

/-- Types that are alike have mirrored heads. -/
theorem Like.heads_eq (hM : p.Pairs p' M) (hf : ∀ a a', M a a' → f a = a')
    (h : p.Like p' M a a') : p'.heads a' = (p.heads a).map f := by
  -- on the likeness, with definitions as the leaves
  induction h with
  | definition h hM' =>
    obtain ⟨_, d', _, hd', _⟩ := hM _ _ hM'
    rw [heads_of_isDefinition h, heads_of_isDefinition (by rw [hd']; rfl), ← hf _ _ hM']
    rfl
  | scalar h h' =>
    rw [heads_of_bounded (Like.scalar (M := M) h h').bounded_left (by rw [h]; rfl),
      heads_of_bounded ((Like.scalar h h').bounded_right hM) (by rw [h']; rfl), h, h']
    rfl
  | any h h' =>
    rw [heads_of_bounded (Like.any (M := M) h h').bounded_left (by rw [h]; rfl),
      heads_of_bounded ((Like.any h h').bounded_right hM) (by rw [h']; rfl), h, h']
    rfl
  | pending h h' =>
    rw [heads_of_bounded (Like.pending (M := M) h h').bounded_left (by rw [h]; rfl),
      heads_of_bounded ((Like.pending h h').bounded_right hM) (by rw [h']; rfl), h, h']
    rfl
  | optional h h' hx ih =>
    rw [heads_of_bounded (Like.optional h h' hx).bounded_left (by rw [h]; rfl),
      heads_of_bounded ((Like.optional h h' hx).bounded_right hM) (by rw [h']; rfl), h, h']
    simp [Entry.parts, ih]
  | array h h' hx ih =>
    rw [heads_of_bounded (Like.array h h' hx).bounded_left (by rw [h]; rfl),
      heads_of_bounded ((Like.array h h' hx).bounded_right hM) (by rw [h']; rfl), h, h']
    simp [Entry.parts, ih]
  | map h h' hx hy ihx ihy =>
    rw [heads_of_bounded (Like.map h h' hx hy).bounded_left (by rw [h]; rfl),
      heads_of_bounded ((Like.map h h' hx hy).bounded_right hM) (by rw [h']; rfl), h, h']
    simp [Entry.parts, ihx, ihy]

/-- Lists of types that are alike have heads that stand for each other. -/
theorem flatMap_heads_eq (hM : p.Pairs p' M) (hf : ∀ a a', M a a' → f a = a')
    {l l' : List EntryId} (h : List.Forall₂ (p.Alike p' M) l l') :
    (l'.map p'.resolve).flatMap p'.heads = ((l.map p.resolve).flatMap p.heads).map f := by
  induction h with
  | nil => rfl
  | cons hx _ ih =>
    rw [List.map_cons, List.map_cons, List.flatMap_cons, List.flatMap_cons, List.map_append, ih,
      Like.heads_eq hM hf hx]

/-- What is compared within what is visited is compared within the definitions that are found. -/
theorem Like.within (h : p.Like p' M a a') (ha : a ∈ p.visitOrder roots) :
    p.Like p' (fun a a' => M a a' ∧ a ∈ p.reachable roots) a a' := by
  -- on the likeness, with visited parts
  induction h with
  | scalar h h' => exact .scalar h h'
  | any h h' => exact .any h h'
  | pending h h' => exact .pending h h'
  | definition h hM' => exact .definition h ⟨hM', mem_reachable_iff.2 ⟨ha, h⟩⟩
  | optional h h' _ ih =>
    exact .optional h h' (ih (visitOrder_closed ha (by simp [h, Entry.parts])))
  | array h h' _ ih => exact .array h h' (ih (visitOrder_closed ha (by simp [h, Entry.parts])))
  | map h h' _ _ ihx ihy =>
    exact .map h h' (ihx (visitOrder_closed ha (by simp [h, Entry.parts])))
      (ihy (visitOrder_closed ha (by simp [h, Entry.parts])))

theorem alike_within {l l' : List EntryId} (h : List.Forall₂ (p.Alike p' M) l l')
    (hl : ∀ x ∈ l, p.resolve x ∈ p.visitOrder roots) :
    List.Forall₂ (p.Alike p' fun a a' => M a a' ∧ a ∈ p.reachable roots) l l' :=
  ((List.forall₂_and_left l l').2 ⟨hl, h⟩).imp fun _ _ hx => Like.within hx.2 hx.1

end Pool

theorem Definition.Like.within {p p' : Pool} {M : EntryId → EntryId → Prop}
    {roots : List EntryId} {d d' : Definition} (h : d.Like p p' M d')
    (hparts : ∀ x ∈ d.parts, p.resolve x ∈ p.visitOrder roots) :
    d.Like p p' (fun a a' => M a a' ∧ a ∈ p.reachable roots) d' := by
  cases h with
  | enum name members => exact .enum name members
  | interface name h => exact .interface name (Pool.alike_within h hparts)
  | message name h =>
    have hfields := (List.forall₂_and_left _ _).2 ⟨List.forall_mem_map.1 hparts, h⟩
    exact .message name (hfields.imp fun _ _ hf => ⟨hf.2.1, Pool.Like.within hf.2.2 hf.1⟩)

/-! ## §6. Mirrored schemas. -/

namespace Schema

variable {s s' : Schema} {f : EntryId → EntryId} {a : EntryId}

/-- The definitions that stand for each other, among those that are reached. -/
def Stands (s : Schema) (f : EntryId → EntryId) (a a' : EntryId) : Prop :=
  f a = a' ∧ a ∈ s.definitions

/-- The keys of maps have no parts. -/
theorem PlainKeys.parts (hs : s.PlainKeys) :
    ∀ a ∈ s.pool.visitOrder s.roots, ∀ key value, s.pool.entry a = .map key value →
      (s.pool.resolved key).parts = [] := by
  intro a ha key value hmap
  rcases hs a ha key value hmap with ⟨c, hc⟩ | ⟨name, members, henum⟩
  · rw [hc]
    rfl
  · rw [henum]
    rfl

/-- What definitions are made of is visited. -/
theorem part_visited (ha : a ∈ s.definitions) :
    ∀ x ∈ (s.pool.entry a).parts, s.pool.resolve x ∈ s.pool.visitOrder s.roots := fun _ hx =>
  Pool.visitOrder_closed (Pool.mem_reachable_iff.1 ha).1 hx

namespace Mirrors

/-- In schemas that mirror each other, what stands for each other is a pair. -/
theorem pairs (h : s.Mirrors s' f) : s.pool.Pairs s'.pool (Stands s f) := by
  rintro a _ ⟨rfl, ha⟩
  obtain ⟨d, hd⟩ := Entry.isDefinition_iff.1 (Pool.isDefinition_of_mem_reachable ha)
  obtain ⟨d', hd', hlike⟩ := h.definitions a ha d hd
  exact ⟨d, d', hd, hd', hlike.name_eq, hlike.isEnum_eq⟩

/-- Definitions that stand for each other are made of types that are alike. -/
theorem exists_like (h : s.Mirrors s' f) (ha : a ∈ s.definitions) :
    ∃ d d', s.pool.entry a = .definition d ∧ s'.pool.entry (f a) = .definition d' ∧
      d.Like s.pool s'.pool (Stands s f) d' := by
  obtain ⟨d, hd⟩ := Entry.isDefinition_iff.1 (Pool.isDefinition_of_mem_reachable ha)
  obtain ⟨d', hd', hlike⟩ := h.definitions a ha d hd
  have hparts := part_visited ha
  rw [hd] at hparts
  exact ⟨d, d', hd, hd', hlike.within hparts⟩

theorem roots_alike (h : s.Mirrors s' f) :
    List.Forall₂ (s.pool.Alike s'.pool (Stands s f)) s.roots s'.roots :=
  Pool.alike_within (List.rel_flatMap h.methods fun _ _ hm => .cons hm.2.1 (.cons hm.2.2 .nil))
    fun _ hx => Pool.root_mem_visitOrder hx

/-- What the first schema visits unfolds finitely. -/
theorem bounded_left (h : s.Mirrors s' f) :
    ∀ a ∈ s.pool.visitOrder s.roots, s.pool.Bounded a := by
  refine fun a => Pool.bounded_of_visited (fun x hx => ?_) fun d hd x hx => ?_
  · obtain ⟨x', _, halike⟩ := exists_right_of_mem h.roots_alike hx
    exact halike.bounded_left
  · obtain ⟨e, e', he, _, hlike⟩ := h.exists_like hd
    rw [he] at hx
    obtain ⟨x', _, halike⟩ := exists_right_of_mem hlike.parts hx
    exact halike.bounded_left

theorem bounded_right (h : s.Mirrors s' f) :
    ∀ a ∈ s'.pool.visitOrder s'.roots, s'.pool.Bounded a := by
  refine fun a => Pool.bounded_of_visited (fun x hx => ?_) fun d hd x hx => ?_
  · obtain ⟨x', _, halike⟩ := exists_left_of_mem h.roots_alike hx
    exact halike.bounded_right h.pairs
  · -- the definition stands for one of the other schema
    obtain ⟨c, hc, rfl⟩ := h.bijective.surjOn hd
    obtain ⟨e, e', _, he', hlike⟩ := h.exists_like hc
    rw [he'] at hx
    obtain ⟨x', _, halike⟩ := exists_left_of_mem hlike.parts hx
    exact halike.bounded_right h.pairs

/-- **Mirrored searches find mirrored definitions.** -/
theorem definitions_eq_map (hs : s.PlainKeys) (hs' : s'.PlainKeys) (h : s.Mirrors s' f) :
    s'.definitions = s.definitions.map f := by
  have hfind := Pool.reachable_eq_order h.bounded_left hs.parts
  have hfind' := Pool.reachable_eq_order h.bounded_right hs'.parts
  have hstands : ∀ a a', Stands s f a a' → f a = a' := fun _ _ hM => hM.1
  -- from one definition to the next, both searches go on alike
  have hedges : ∀ a, a ∈ s.definitions → s'.pool.leap (f a) = (s.pool.leap a).map f := by
    intro a ha
    obtain ⟨d, d', hd, hd', hlike⟩ := h.exists_like ha
    have hheads := Pool.flatMap_heads_eq h.pairs hstands hlike.parts
    show ((s'.pool.entry (f a)).parts.map s'.pool.resolve).flatMap s'.pool.heads = _
    rw [hd']
    refine hheads.trans ?_
    show _ = (((s.pool.entry a).parts.map s.pool.resolve).flatMap s.pool.heads).map f
    rw [hd]
    rfl
  have hmem : ∀ a, a ∈ s.definitions ↔ ∃ b ∈ (s.roots.map s.pool.resolve).flatMap s.pool.heads,
      Graph.Reaches s.pool.leap b a := fun a => by
    show a ∈ s.pool.reachable s.roots ↔ _
    rw [hfind]
    exact Graph.mem_order_iff Pool.leap_of_not_mem_ids
  show s'.pool.reachable s'.roots = (s.pool.reachable s.roots).map f
  rw [hfind, hfind', Pool.flatMap_heads_eq h.pairs hstands h.roots_alike]
  refine Graph.order_map (S := (· ∈ s.definitions)) Pool.leap_of_not_mem_ids
    Pool.leap_of_not_mem_ids (fun a b ha hb => ?_) (fun a b ha hb => h.bijective.injOn ha hb)
    hedges fun a ha => (hmem a).2 ⟨a, ha, .refl⟩
  obtain ⟨c, hc, hpath⟩ := (hmem a).1 ha
  exact (hmem b).2 ⟨c, hc, hpath.tail hb⟩

/-- **Schemas that mirror each other have the same blocks.** -/
theorem blocks_eq (hs : s.PlainKeys) (hs' : s'.PlainKeys) (h : s.Mirrors s' f) :
    s.pool.blocks s.definitions = s'.pool.blocks s'.definitions := by
  have hdefs := h.definitions_eq_map hs hs'
  have hstand : List.Forall₂ (Stands s f) s.definitions s'.definitions := by
    rw [hdefs, List.forall₂_map_right_iff, List.forall₂_same]
    exact fun a ha => ⟨rfl, ha⟩
  have hblocks : s.definitions.filterMap s.pool.entryBlock?
      = s'.definitions.filterMap s'.pool.entryBlock? := by
    rw [hdefs, List.filterMap_map]
    refine List.filterMap_congr fun a ha => ?_
    obtain ⟨d, d', hd, hd', hlike⟩ := h.exists_like ha
    simp only [Function.comp_apply, Pool.entryBlock?, hd, hd',
      Pool.definitionBlock_eq h.pairs hlike]
  -- wrappers are gathered from definitions that stand for each other, in one order
  have htypes : List.Forall₂ (s.pool.Alike s'.pool (Stands s f))
      (s.pool.typesOf s.definitions) (s'.pool.typesOf s'.definitions) := by
    refine List.rel_flatMap hstand fun a a' hM => ?_
    obtain ⟨rfl, ha⟩ := hM
    obtain ⟨d, d', hd, hd', hlike⟩ := h.exists_like ha
    rw [Pool.resolved, Pool.resolved, Pool.resolve_of_not_reference (by rw [hd]; rfl),
      Pool.resolve_of_not_reference (by rw [hd']; rfl), hd, hd']
    cases hlike with
    | message name hfields => exact (Definition.Like.message name hfields).parts
    | enum name members => exact .nil
    | interface name himpl => exact .nil
  have hwrappers : (s.pool.wrappers s.definitions).map s.pool.wrapperBlock
      = (s'.pool.wrappers s'.definitions).map s'.pool.wrapperBlock := by
    have hfound := Pool.foldl_addWrappers_like h.pairs htypes .nil
    have hsort : ∀ (p : Pool) (l : List Pool.Wrapper),
        (Sequence.sortBy (·.name) l).map p.wrapperBlock
          = Sequence.sortBy (·.name) (l.map p.wrapperBlock) :=
      fun p => Sequence.map_sortBy fun _ => rfl
    rw [Pool.wrappers, Pool.wrappers, hsort, hsort]
    exact congrArg _ (forall₂_map_eq (fun _ _ hw => Pool.wrapperBlock_eq h.pairs hw) hfound)
  rw [Pool.blocks, Pool.blocks, hblocks, hwrappers]

/-- **Schemas that mirror each other say the same.** -/
theorem document_eq (hs : s.PlainKeys) (hs' : s'.PlainKeys) (h : s.Mirrors s' f) :
    s.document = s'.document := by
  have hmethods : s.methods.map s.pool.rpc = s'.methods.map s'.pool.rpc := by
    refine forall₂_map_eq (fun m m' hm => ?_)
      ((List.forall₂_and_left s.methods s'.methods).2 ⟨fun m hm => hm, h.methods⟩)
    obtain ⟨hmem, hname, hrequest, hresponse⟩ := hm
    -- messages of methods are roots, so they are visited
    have hroot : ∀ x ∈ [m.request, m.response], x ∈ s.roots := fun x hx =>
      List.mem_flatMap.2 ⟨m, hmem, hx⟩
    have hrequest' : s.pool.Alike s'.pool (Stands s f) m.request m'.request :=
      hrequest.within (Pool.root_mem_visitOrder (hroot _ (by simp)))
    have hresponse' : s.pool.Alike s'.pool (Stands s f) m.response m'.response :=
      hresponse.within (Pool.root_mem_visitOrder (hroot _ (by simp)))
    rw [Pool.rpc, Pool.rpc, hname, hrequest'.elementName_eq h.pairs,
      hresponse'.elementName_eq h.pairs]
  rw [document, document, h.package, h.options, h.service, hmethods, h.blocks_eq hs hs']

end Mirrors

end Schema

/-- **The text of a schema is that of its reachable graph.**

Two schemas of one service, one package and the same options whose maps have scalars or enums for
keys have the same text when a bijection between the definitions they reach respects names, enum
members, the fields of messages and the implementations of interfaces in their order, and the types
of fields, requests and responses, which are compared through lists, maps and optional markers
after references have been resolved. -/
theorem mirrored_text {s s' : Schema} {f : EntryId → EntryId} (hs : s.PlainKeys)
    (hs' : s'.PlainKeys) (h : s.Mirrors s' f) : s.text = s'.text := by
  rw [Schema.text, Schema.text, h.document_eq hs hs']

/-! ## §7. A pool in two orders. -/

/-- A service with a method that takes groups of users, who have friends. -/
def directory (request response : EntryId) (pool : Pool) : Schema where
  service := "Directory"
  package := none
  options := .empty
  methods := [⟨"List", request, response⟩]
  pool := pool

/-- The user is added first, and is met by its id. -/
def directPool : Pool :=
  ⟨Pool.start.entries ++
    #[.definition (.message "User" [⟨"Id", .scalar .string⟩, ⟨"Friends", .entry 10⟩]),
      .array (.entry 9), .map (.scalar .string) (.entry 10),
      .definition (.message "ListRequest" [⟨"groups", .entry 11⟩]),
      .definition (.message "ListResponse" [])], []⟩

/-- The user is added late, and its friends are met through a reference; one message is never
reached. -/
def detourPool : Pool :=
  ⟨Pool.start.entries ++
    #[.definition (.message "Unused" []), .definition (.message "ListResponse" []),
      .reference (.entry 30), .array (.entry 11), .array (.entry 15),
      .map (.scalar .string) (.entry 13),
      .definition (.message "User" [⟨"Id", .scalar .string⟩, ⟨"Friends", .entry 12⟩]),
      .definition (.message "ListRequest" [⟨"groups", .entry 14⟩])],
    [(.entry 30, .done (.entry 15))]⟩

/-- The directory in the first order. -/
def directDirectory : Schema := directory (.entry 12) (.entry 13) directPool

/-- The directory in the second order. -/
def detourDirectory : Schema := directory (.entry 16) (.entry 10) detourPool

/-- Where the definitions of `directPool` are in `detourPool`. -/
def detour : EntryId → EntryId
  | .entry 9 => .entry 15
  | .entry 12 => .entry 16
  | .entry 13 => .entry 10
  | id => id

/-- The two directories mirror each other. -/
theorem mirrors_directory : directDirectory.Mirrors detourDirectory detour := by
  have hdefs : directDirectory.definitions = [.entry 12, .entry 9, .entry 13] := by decide
  have hdefs' : detourDirectory.definitions = [.entry 16, .entry 15, .entry 10] := by decide
  -- users are met directly or through the reference
  have husers : ∀ x ∈ [EntryId.entry 12, .entry 13],
      directPool.Alike detourPool (detour · = ·) (.entry 10) x := by
    intro x hx
    fin_cases hx <;> exact .array rfl rfl (.definition rfl rfl)
  refine ⟨rfl, rfl, rfl, .cons ⟨rfl, .definition rfl rfl, .definition rfl rfl⟩ .nil, ?_, ?_⟩
  · have hinto : ∀ a ∈ [EntryId.entry 12, .entry 9, .entry 13],
        detour a ∈ [EntryId.entry 16, .entry 15, .entry 10] := by decide
    have hinj : ∀ a ∈ [EntryId.entry 12, .entry 9, .entry 13],
        ∀ b ∈ [EntryId.entry 12, .entry 9, .entry 13], detour a = detour b → a = b := by decide
    have hsurj : ∀ b ∈ [EntryId.entry 16, .entry 15, .entry 10],
        ∃ a ∈ [EntryId.entry 12, .entry 9, .entry 13], detour a = b := by decide
    rw [hdefs, hdefs']
    exact ⟨hinto, fun a ha b hb => hinj a ha b hb, hsurj⟩
  · intro a ha d hd
    rw [hdefs] at ha
    fin_cases ha <;> cases hd
    · exact ⟨_, rfl, .message _ (.cons ⟨rfl, .map rfl rfl (.scalar rfl rfl)
        (husers (.entry 13) (by simp))⟩ .nil)⟩
    · exact ⟨_, rfl, .message _ (.cons ⟨rfl, .scalar rfl rfl⟩
        (.cons ⟨rfl, husers _ (by simp)⟩ .nil))⟩
    · exact ⟨_, rfl, .message _ .nil⟩

/-- The two orders give one text. -/
theorem mirrored_text_directory :
    directDirectory.PlainKeys ∧ detourDirectory.PlainKeys ∧
      directDirectory.Mirrors detourDirectory detour ∧
      directDirectory.text = detourDirectory.text := by
  have hplain : directDirectory.PlainKeys := by
    have hvisit : directDirectory.pool.visitOrder directDirectory.roots
        = [.entry 12, .entry 11, .entry 0, .entry 10, .entry 9, .entry 13] := by decide
    intro a ha key value hmap
    rw [hvisit] at ha
    -- the one map is keyed by a string
    fin_cases ha <;> cases hmap
    exact Or.inl ⟨.string, rfl⟩
  have hplain' : detourDirectory.PlainKeys := by
    have hvisit : detourDirectory.pool.visitOrder detourDirectory.roots
        = [.entry 16, .entry 14, .entry 0, .entry 13, .entry 15, .entry 12, .entry 10] := by
      decide
    intro a ha key value hmap
    rw [hvisit] at ha
    fin_cases ha <;> cases hmap
    exact Or.inl ⟨.string, rfl⟩
  exact ⟨hplain, hplain', mirrors_directory, mirrored_text hplain hplain' mirrors_directory⟩

end RpcSchema
