/-
  RpcSchema.Proofs.Conversion.Image
  ─────────────────────────────────
  **CONVERSION IS A FAITHFUL IMAGE OF THE NATIVE TYPE GRAPH.**

  When no conversion is under way any more, every reference can be
  followed.  The image of a native is what its result resolves to; an id
  that stands for a native then resolves to its image, so the equations
  between a native and its parts, which a run only establishes up to
  references, hold between the images.

  Main statement: `conversion_faithful` — whatever cycles the types have
  and in whatever order they are converted, every finished native has an
  image of its shape over the images of its parts.
-/
import RpcSchema.Proofs.Conversion.Invariant

namespace RpcSchema.Source

variable (s : Source)

/-! ## §1. Pools in which no conversion is under way. -/

/-- A sound pool in which no conversion is under way. -/
structure Settled (p : Pool) : Prop extends s.Sound p where
  ended : ∀ n, p.slot n ≠ some .inProgress

/-- The image of a native: the scalar of a basic kind, and what the result resolves to. -/
def image (p : Pool) (n : NativeId) : Option EntryId :=
  match s.types.kind n with
  | .basic kind => kind.scalar?.map .scalar
  | _ =>
    match p.slot n with
    | some (.done t) => some (p.resolve t)
    | _ => none

variable {s} {p q : Pool} {n : NativeId} {t : EntryId}

theorem settled_start : s.Settled Pool.start :=
  ⟨sound_start, fun n h => by cases h⟩

theorem Converts.settled {ns met : List NativeId} {ids : List EntryId}
    (h : s.Converts ns p met ids q) (hp : s.Settled p) : s.Settled q :=
  ⟨h.sound hp.toSound, fun n hn => hp.ended n (h.advances.inProgress_before hn)⟩

/-- In a settled pool a native with a slot is finished. -/
theorem Settled.exists_done (hp : s.Settled p) (h : p.slot n ≠ none) :
    ∃ t, p.slot n = some (.done t) := by
  obtain ⟨slot, hslot⟩ := Option.ne_none_iff_exists'.1 h
  cases slot with
  | inProgress => exact absurd hslot (hp.ended n)
  | done t => exact ⟨t, hslot⟩

/-- What stands for a native leads to its result. -/
theorem Settled.exists_result (hp : s.Settled p) (hb : ¬ s.IsBasic n) (hx : s.Stands p n t) :
    ∃ u, p.slot n = some (.done u) ∧ p.Leads t u := by
  cases hx with
  | scalar hn _ _ => exact absurd ⟨_, hn⟩ hb
  | done _ hslot => exact ⟨t, hslot, .refl⟩
  | reference _ ht =>
    obtain ⟨u, hu⟩ := hp.exists_done (hp.live t n ht)
    exact ⟨u, hu, .single ⟨n, ht, hu⟩⟩

/-- The image of a finished native is its result, resolved. -/
theorem image_of_done (hb : ¬ s.IsBasic n) (h : p.slot n = some (.done t)) :
    s.image p n = some (p.resolve t) := by
  unfold image
  split
  · rename_i kind hk
    exact absurd ⟨kind, hk⟩ hb
  · rw [h]

theorem Sound.resolve_scalar (hp : s.Sound p) (c : Scalar) :
    p.resolve (.scalar c) = .scalar c :=
  Pool.resolve_of_not_reference (by rw [hp.base.scalar]; rfl)

/-- **An id that stands for a native resolves to its image.** -/
theorem Settled.image_of_stands (hp : s.Settled p) (h : s.Stands p n t) :
    s.image p n = some (p.resolve t) := by
  cases h with
  -- a basic kind is its scalar, which has no slot
  | scalar hn hc ht =>
    unfold image
    rw [hn, ht, hp.resolve_scalar]
    simp [hc]
  | done hb hslot => exact image_of_done hb hslot
  | reference hb ht =>
    -- the reference is followed to the result
    obtain ⟨u, hu⟩ := hp.exists_done (hp.live t n ht)
    rw [image_of_done hb hu, Pool.resolve_reference hp.flat ht hu]

/-! ## §2. Faithfulness. -/

variable (s)

/-- The entry `a` has the shape of the native `n`, and its parts resolve to the images of the
parts of `n`. -/
structure Faithful (p : Pool) (n : NativeId) (a : EntryId) : Prop where
  pointer : ∀ elem, s.types.kind n = .pointer elem → s.image p elem = some a
  slice : ∀ elem, s.types.kind n = .slice elem →
    ∃ x, p.entry a = .array x ∧ s.image p elem = some (p.resolve x)
  map : ∀ key value, s.types.kind n = .map key value →
    ∃ x y, p.entry a = .map x y ∧ s.image p key = some (p.resolve x) ∧
      s.image p value = some (p.resolve y)
  error : s.types.isError n = true → p.entry a = .optional (.scalar .string)
  any : s.IsInterface n → s.types.methodSet n = [] → a = .any ∧ p.entry a = .any
  /-- A message of the own name, with the shown fields in declaration order. -/
  struct : ∀ decl fs, s.Declares n decl (.struct fs) →
    ∃ fields, p.entry a = .definition (.message decl.name fields) ∧
      List.Forall₂ (fun f g => g.name = f.name ∧ s.image p f.type = some (p.resolve g.type))
        (s.shownFields decl fs) fields
  interface : ∀ decl asked, s.Declares n decl (.interface asked) → s.types.methodSet n ≠ [] →
    ∃ ids, p.entry a = .definition (.interface decl.name ids) ∧
      List.Forall₂ (fun m x => s.image p m = some (p.resolve x))
        (s.package.implementations n) ids
  enum : ∀ decl kind e, s.Declares n decl (.basic kind) → s.enums.lookup n = some e →
    p.entry a = .definition e.definition
  scalar : ∀ decl kind, s.Declares n decl (.basic kind) → s.enums.lookup n = none →
    ∃ c, kind.scalar? = some c ∧ a = .scalar c
  /-- The image of its shape, or a message with that as its only field. -/
  container : ∀ decl shape, s.Declares n decl shape → shape.isContainer = true →
    s.image p decl.underlying = some a ∨
      ∃ x, p.entry a = .definition (.message decl.name [⟨closingField (p.entry x), x⟩]) ∧
        s.image p decl.underlying = some (p.resolve x)

variable {s}

/-! ## §3. From built to faithful. -/

/-- The fields of a message whose types stand for the types of struct fields. -/
theorem Settled.fields_image (hp : s.Settled p) {fs : List Field} {ids : List EntryId}
    (h : List.Forall₂ (s.Stands p) (fs.map (·.type)) ids) :
    List.Forall₂ (fun f g => g.name = f.name ∧ s.image p f.type = some (p.resolve g.type))
      fs (List.zipWith (fun f id => (⟨f.name, id⟩ : MessageField)) fs ids) := by
  -- field by field, each with its own converted type
  induction fs generalizing ids with
  | nil =>
    cases h
    exact List.Forall₂.nil
  | cons f fs ih =>
    obtain ⟨x, rest, hx, hrest, rfl⟩ := List.forall₂_cons_left_iff.1 h
    exact List.Forall₂.cons ⟨rfl, hp.image_of_stands hx⟩ (ih hrest)

theorem resolve_eq_self {e : Entry} (h : p.entry t = e) (he : e.isReference = false) :
    p.resolve t = t :=
  Pool.resolve_of_not_reference (by rw [h]; exact he)

/-- **In a settled pool what is built is faithful.** -/
theorem Settled.faithful (hp : s.Settled p) (h : s.Built p n t) :
    s.Faithful p n (p.resolve t) where
  -- in each field the other ways to be built contradict the kind
  pointer elem hn := by
    cases h with
    | pointer hn' ht =>
      rw [hn] at hn'
      cases hn'
      exact hp.image_of_stands ht
    | _ => grind [Declares, IsInterface, isError_of_kind_ne_named]
  slice elem hn := by
    cases h with
    | slice hn' ht hx =>
      rw [hn] at hn'
      cases hn'
      rw [resolve_eq_self ht rfl]
      exact ⟨_, ht, hp.image_of_stands hx⟩
    | _ => grind [Declares, IsInterface, isError_of_kind_ne_named]
  map key value hn := by
    cases h with
    | map hn' ht hx hy _ =>
      rw [hn] at hn'
      cases hn'
      rw [resolve_eq_self ht rfl]
      exact ⟨_, _, ht, hp.image_of_stands hx, hp.image_of_stands hy⟩
    | _ => grind [Declares, IsInterface, isError_of_kind_ne_named]
  error hn := by
    cases h with
    | error _ ht =>
      rw [resolve_eq_self ht rfl]
      exact ht
    | _ => grind [Declares, IsInterface, isError_of_kind_ne_named]
  any hn hempty := by
    cases h with
    | any _ _ ht =>
      rw [ht, resolve_eq_self hp.base.any rfl]
      exact ⟨rfl, hp.base.any⟩
    | _ => grind [Declares, IsInterface, isError_of_kind_ne_named, NativeKind.isContainer]
  struct decl fs hn := by
    cases h with
    | struct hn' ht hids =>
      obtain rfl := NativeKind.named.inj (hn.1.symm.trans hn'.1)
      obtain rfl := NativeKind.struct.inj (hn.2.2.symm.trans hn'.2.2)
      rw [resolve_eq_self ht rfl]
      exact ⟨_, ht, hp.fields_image hids⟩
    | _ => grind [Declares, IsInterface, NativeKind.isContainer]
  interface decl asked hn hasks := by
    cases h with
    | interface hn' _ ht hids =>
      obtain rfl := NativeKind.named.inj (hn.1.symm.trans hn'.1)
      rw [resolve_eq_self ht rfl]
      exact ⟨_, ht, hids.imp fun _ _ hst => hp.image_of_stands hst⟩
    | _ => grind [Declares, IsInterface, NativeKind.isContainer]
  enum decl kind e hn he := by
    cases h with
    | enum _ he' ht =>
      rw [he] at he'
      cases he'
      rw [resolve_eq_self ht rfl]
      exact ht
    | _ => grind [Declares, IsInterface, NativeKind.isContainer]
  scalar decl kind hn he := by
    cases h with
    | @scalar decl' kind' c hn' _ hc ht =>
      obtain rfl := NativeKind.named.inj (hn.1.symm.trans hn'.1)
      obtain rfl := NativeKind.basic.inj (hn.2.2.symm.trans hn'.2.2)
      rw [ht, hp.resolve_scalar]
      exact ⟨c, hc, rfl⟩
    | _ => grind [Declares, IsInterface, NativeKind.isContainer]
  container decl shape hn hc := by
    cases h with
    | through hn' _ ht =>
      obtain rfl := NativeKind.named.inj (hn.1.symm.trans hn'.1)
      exact Or.inl (hp.image_of_stands ht)
    | lifted hn' _ _ hx ht =>
      obtain rfl := NativeKind.named.inj (hn.1.symm.trans hn'.1)
      rw [resolve_eq_self ht rfl]
      exact Or.inr ⟨_, ht, hp.image_of_stands hx⟩
    | _ => grind [Declares, IsInterface, NativeKind.isContainer]

/-- **Conversion is a faithful image of the native type graph.**  After any sequence of
conversions from the first pool, what they returned resolves to the images of the converted
natives, and the result of every finished native resolves to a faithful image. -/
theorem conversion_faithful {ids : List NativeId} {ts : List EntryId}
    (h : (ids.mapM s.convert).Yields Pool.start ts p) :
    List.Forall₂ (fun n t => s.image p n = some (p.resolve t)) ids ts ∧
      ∀ n t, p.slot n = some (.done t) → s.Faithful p n (p.resolve t) := by
  obtain ⟨met, hrun⟩ := converts_of_yields s.budget ids Pool.start ts p h
  have hp : s.Settled p := hrun.settled settled_start
  refine ⟨hrun.returned.imp fun n t ht => hp.image_of_stands ht.stands, fun n t hn => ?_⟩
  exact hp.faithful (hp.built n t hn)

/-- A struct that holds itself behind a pointer and in a list, converted by way of the list. -/
def treeExample : Source where
  package :=
    ⟨"example.com/tree", "tree",
      ⟨Universe.predeclared.kinds ++
        #[.named ⟨"Node", some "example.com/tree", .entry 22, []⟩,
          .struct [⟨"Next", .entry 23, false⟩, ⟨"Kids", .entry 24, false⟩],
          .pointer (.entry 21), .slice (.entry 23)]⟩,
      [("Node", .entry 21)], []⟩
  enums := []
  fieldless := []

/-- The pool after the list of trees and a string are converted. -/
def treePool : Pool :=
  (([.entry 24, .basic .string].mapM treeExample.convert).outcome Pool.start).2

/-- The images of a tree that holds itself, and shares one of its parts. -/
theorem conversion_faithful_tree :
    ([.entry 24, .basic .string].mapM treeExample.convert).Yields Pool.start
        [.entry 12, .scalar .string] treePool ∧
      treePool.slot (.entry 21) = some (.done (.entry 11)) ∧
      treeExample.Faithful treePool (.entry 21) (treePool.resolve (.entry 11)) := by
  have hrun : ([.entry 24, .basic .string].mapM treeExample.convert).Yields Pool.start
      [.entry 12, .scalar .string] treePool :=
    Conversion.yields_iff_toOption.2 ⟨by decide +kernel, rfl⟩
  have hslot : treePool.slot (.entry 21) = some (.done (.entry 11)) := by
    decide +kernel
  exact ⟨hrun, hslot, (conversion_faithful hrun).2 _ _ hslot⟩

end RpcSchema.Source
