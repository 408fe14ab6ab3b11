/-
  RpcSchema.Proofs.Conversion.Offence
  ───────────────────────────────────
  **WHAT STANDS IN THE WAY OF A CONVERSION.**

  Some natives are converted under no circumstances: a basic kind without
  a scalar, a shape without a schema type, a map whose key can be no key.
  Which they are is a matter of the package alone, although the test for
  keys is made on the pool, when the key is converted.

  Main statements: `isKey_of_keyType` and `keyType_of_leadsToKey` (the
  test is right about keys) and `not_offends` (nothing stands in the way
  of a finished native).
-/
import RpcSchema.Proofs.Conversion.Grounded
import RpcSchema.Proofs.Conversion.Ring

namespace RpcSchema.Source

variable (s : Source)

/-! ## §1. Keys of maps. -/

/-- A native whose conversion can be the key of a map. -/
inductive KeyType : NativeId → Prop
  | basic {n kind c} (hn : s.types.kind n = .basic kind) (hc : kind.scalar? = some c)
      (hf : c.isFloat = false) : KeyType n
  | scalar {n decl kind c} (hn : s.Declares n decl (.basic kind)) (he : s.enums.lookup n = none)
      (hc : kind.scalar? = some c) (hf : c.isFloat = false) : KeyType n
  | enum {n decl kind e} (hn : s.Declares n decl (.basic kind)) (he : s.enums.lookup n = some e) :
      KeyType n
  | pointer {n m} (hn : s.PointsTo n m) (hm : KeyType m) : KeyType n

/-- References lead from the id to a key. -/
def LeadsToKey (p : Pool) (x : EntryId) : Prop :=
  ∃ z, p.Leads x z ∧ isKey (p.entry z) = true

variable {s} {n m : NativeId} {p q r : Pool} {t x : EntryId} {c : CompileError}

/-- The chain of pointers to a key ends, so it does not come back. -/
theorem KeyType.not_cyclic (h : s.KeyType n) : ¬ s.Cyclic n := by
  induction h with
  | basic hn _ _ =>
    intro hc
    obtain ⟨m, hm, _⟩ := Relation.TransGen.head'_iff.1 hc
    simp [Asks, edges, steps, hn] at hm
  | scalar hn _ _ _ =>
    intro hc
    obtain ⟨m, hm, _⟩ := Relation.TransGen.head'_iff.1 hc
    simp [Asks, edges_enumerable hn] at hm
  | enum hn _ =>
    intro hc
    obtain ⟨m, hm, _⟩ := Relation.TransGen.head'_iff.1 hc
    simp [Asks, edges_enumerable hn] at hm
  -- a pointer asks for its element only, so that a cycle goes through it
  | @pointer n m hn _ ih =>
    intro hc
    obtain ⟨k, hk, hkn⟩ := Relation.TransGen.head'_iff.1 hc
    have hnm : s.Asks n m := by simp [Asks, hn.edges]
    obtain rfl : k = m := by simpa [Asks, hn.edges] using hk
    exact ih (Relation.TransGen.tail' hkn hnm)

/-- **What stands for a native that can be a key is a key.**  It is no reference, since only
natives that lead to themselves are referred to. -/
theorem Grounded.isKey_of_keyType (hp : s.Grounded p) (h : s.KeyType n) (hx : s.Stands p n x) :
    isKey (p.resolved x) = true := by
  -- an entry that is a key itself
  have hself : ∀ e, p.entry x = e → isKey e = true → isKey (p.resolved x) = true := by
    intro e he hkey
    have hno : (p.entry x).isReference = false := by
      rw [he]
      cases e <;> first | rfl | cases hkey
    unfold Pool.resolved
    rw [Pool.resolve_of_not_reference hno, he]
    exact hkey
  have hnot : p.entry x ≠ .reference n := fun hx => h.not_cyclic (hp.cyclic x n hx)
  induction h with
  | @basic n kind c hn hc hf =>
    cases hx with
    | scalar hn' hc' ht =>
      obtain rfl := NativeKind.basic.inj (hn.symm.trans hn')
      obtain rfl := Option.some.inj (hc.symm.trans hc')
      exact hself _ (by rw [ht, hp.base.scalar]) (by simp [isKey, hf])
    | done hb _ => exact absurd ⟨_, hn⟩ hb
    | reference hb _ => exact absurd ⟨_, hn⟩ hb
  | @scalar n decl kind c hn he hc hf =>
    cases hx with
    | scalar hn' _ _ => grind [Declares]
    | reference _ hx => exact absurd hx hnot
    | done _ hslot =>
      cases hp.built n x hslot with
      | scalar hn' _ hc' ht =>
        obtain rfl := NativeKind.named.inj (hn.1.symm.trans hn'.1)
        obtain rfl := NativeKind.basic.inj (hn.2.2.symm.trans hn'.2.2)
        obtain rfl := Option.some.inj (hc.symm.trans hc')
        exact hself _ (by rw [ht, hp.base.scalar]) (by simp [isKey, hf])
      | _ => grind [Declares, IsInterface, NativeKind.isContainer]
  | @enum n decl kind e hn he =>
    cases hx with
    | scalar hn' _ _ => grind [Declares]
    | reference _ hx => exact absurd hx hnot
    | done _ hslot =>
      cases hp.built n x hslot with
      | enum _ _ ht => exact hself _ ht rfl
      | _ => grind [Declares, IsInterface, NativeKind.isContainer]
  | @pointer n m hn hm ih =>
    have hnotm : p.entry x ≠ .reference m := fun hx => hm.not_cyclic (hp.cyclic x m hx)
    cases hx with
    | scalar hn' _ _ => exact absurd ⟨_, hn'⟩ hn.not_isBasic
    | reference _ hx => exact absurd hx hnot
    | done _ hslot =>
      refine ih ?_ hnotm
      rcases pointsTo_iff.1 hn with hk | ⟨decl, elem, hk, rfl⟩
      · cases hp.built n x hslot with
        | pointer hk' ht =>
          obtain rfl := NativeKind.pointer.inj (hk.symm.trans hk')
          exact ht
        | _ => grind [Declares, IsInterface, isError_of_kind_ne_named]
      · -- a named pointer that does not lead to itself passes on what it points to
        exact (hp.closed n decl _ x hk rfl hslot).resolve_right (KeyType.pointer hn hm).not_cyclic

/-- A path to a key that starts at no reference ends where it starts. -/
theorem LeadsToKey.isKey_of_not_reference (h : LeadsToKey p x)
    (hx : (p.entry x).isReference = false) : isKey (p.entry x) = true := by
  obtain ⟨z, hz, hkey⟩ := h
  rcases Relation.ReflTransGen.cases_head hz with rfl | ⟨y, ⟨m, hxm, _⟩, _⟩
  · exact hkey
  · rw [hxm] at hx
    cases hx

/-- What stands for a native and leads to a key has a result that does. -/
theorem LeadsToKey.exists_result (h : LeadsToKey p x) (hb : ¬ s.IsBasic n)
    (hx : s.Stands p n x) : ∃ u, p.slot n = some (.done u) ∧ LeadsToKey p u := by
  cases hx with
  | scalar hn _ _ => exact absurd ⟨_, hn⟩ hb
  | done _ hslot => exact ⟨x, hslot, h⟩
  | reference _ hxn =>
    obtain ⟨z, hz, hkey⟩ := h
    -- a reference is no key, so the way has a first hop: into the slot
    rcases Relation.ReflTransGen.cases_head hz with rfl | ⟨y, ⟨m, hxm, hm⟩, hyz⟩
    · rw [hxn] at hkey
      cases hkey
    · obtain rfl := Entry.reference.inj (hxn.symm.trans hxm)
      exact ⟨y, hm, z, hyz, hkey⟩

theorem IsBox.not_isBasic (h : s.IsBox n) : ¬ s.IsBasic n := by
  rintro ⟨kind, hk⟩
  rcases h with ⟨elem, hn⟩ | ⟨key, value, hn⟩ <;> simp [hk] at hn

/-- The shape of a named container is a pointer, a list or a map. -/
theorem Declares.pointer_or_box {decl : NamedType} {shape : NativeKind}
    (hn : s.Declares n decl shape) (hc : shape.isContainer = true) :
    s.PointsTo n decl.underlying ∨ s.IsBox decl.underlying := by
  cases shape with
  | pointer elem => exact Or.inl (pointsTo_iff.2 (Or.inr ⟨decl, elem, hn, rfl⟩))
  | slice elem => exact Or.inr (Or.inl ⟨elem, hn.2.2⟩)
  | map key value => exact Or.inr (Or.inr ⟨key, value, hn.2.2⟩)
  | _ => cases hc

/-- A finished list or map is a list or map. -/
theorem Grounded.isContainerEntry_of_box (hp : s.Grounded p) (hn : s.IsBox n)
    (ht : p.slot n = some (.done t)) : Pool.isContainerEntry (p.entry t) = true := by
  cases hp.built n t ht with
  | slice _ he _ => rw [he]; rfl
  | map _ he _ _ _ => rw [he]; rfl
  | _ => grind [IsBox, Declares, IsInterface, isError_of_kind_ne_named]

/-- A list or a map is no key. -/
theorem Grounded.not_leadsToKey_of_box (hp : s.Grounded p) (hn : s.IsBox n)
    (hx : s.Stands p n x) : ¬ LeadsToKey p x := by
  intro h
  obtain ⟨u, hu, hkey⟩ := h.exists_result hn.not_isBasic hx
  have hbox := hp.isContainerEntry_of_box hn hu
  have hisKey : isKey (p.entry u) = true := by
    refine hkey.isKey_of_not_reference ?_
    cases he : p.entry u with
    | reference k =>
      rw [he] at hbox
      cases hbox
    | _ => rfl
  -- a list or a map is no key, and nothing else is a container
  cases he : p.entry u with
  | array of =>
    rw [he] at hisKey
    cases hisKey
  | map key value =>
    rw [he] at hisKey
    cases hisKey
  | _ =>
    rw [he] at hbox
    cases hbox

/-- A native whose entry leads to a key can be one, or points to a native whose entry does. -/
theorem Grounded.keyType_or_next (hp : s.Grounded p) (hx : s.Stands p n x)
    (h : LeadsToKey p x) :
    s.KeyType n ∨ ∃ m y, s.PointsTo n m ∧ s.Stands p m y ∧ LeadsToKey p y := by
  by_cases hb : s.IsBasic n
  · cases hx with
    | scalar hn hc ht =>
      have hkey := h.isKey_of_not_reference (by rw [ht, hp.base.scalar]; rfl)
      rw [ht, hp.base.scalar] at hkey
      exact Or.inl (.basic hn hc (by simpa [isKey] using hkey))
    | done hb' _ => exact absurd hb hb'
    | reference hb' _ => exact absurd hb hb'
  · obtain ⟨u, hu, hlead⟩ := h.exists_result hb hx
    -- an entry that is neither a reference nor a key
    have hno : ∀ e, p.entry u = e → e.isReference = false → isKey e = false → False := by
      intro e he href hkey
      have := hlead.isKey_of_not_reference (by rw [he, href])
      rw [he, hkey] at this
      cases this
    cases hp.built n u hu with
    | pointer hn ht => exact Or.inr ⟨_, u, pointsTo_iff.2 (Or.inl hn), ht, hlead⟩
    | slice _ ht _ => exact (hno _ ht rfl rfl).elim
    | map _ ht _ _ _ => exact (hno _ ht rfl rfl).elim
    | any _ _ ht => exact (hno _ (by rw [ht, hp.base.any]) rfl rfl).elim
    | error _ ht => exact (hno _ ht rfl rfl).elim
    | struct _ ht _ => exact (hno _ ht rfl rfl).elim
    | interface _ _ ht _ => exact (hno _ ht rfl rfl).elim
    | lifted _ _ _ _ ht => exact (hno _ ht rfl rfl).elim
    | enum hn he _ => exact Or.inl (.enum hn he)
    | scalar hn he hc ht =>
      have hkey := hlead.isKey_of_not_reference (by rw [ht, hp.base.scalar]; rfl)
      rw [ht, hp.base.scalar] at hkey
      exact Or.inl (.scalar hn he hc (by simpa [isKey] using hkey))
    | through hn hc ht =>
      rcases hn.pointer_or_box hc with hptr | hbox
      · exact Or.inr ⟨_, u, hptr, ht, hlead⟩
      · exact absurd hlead (hp.not_leadsToKey_of_box hbox ht)

/-- **A native whose entry leads to a key can be one.**  By induction along its pointers, which
end. -/
theorem Grounded.keyType_of_leadsToKey (hp : s.Grounded p) (hend : ¬ s.Endless n)
    (hx : s.Stands p n x) (h : LeadsToKey p x) : s.KeyType n := by
  refine induction_of_not_endless (P := fun k => ∀ {x}, s.Stands p k x → LeadsToKey p x →
    s.KeyType k) (fun k ih x hx h => ?_) hend hx h
  rcases hp.keyType_or_next hx h with hkey | ⟨m, y, hm, hy, hlead⟩
  · exact hkey
  · exact .pointer hm (ih m hm hy hlead)

/-! ## §2. What stands in the way. -/

variable (s)

/-- The native `n` cannot be converted, for the reason `c`, whatever was converted before.  The
text of the key is left open, since it is read off the pool. -/
inductive Offends (n : NativeId) : CompileError → Prop
  | basic {kind} (hn : s.types.kind n = .basic kind) (hc : kind.scalar? = none) :
      Offends n (.unsupportedScalar (s.types.spell n) kind.name)
  | declared {decl kind} (hn : s.Declares n decl (.basic kind)) (he : s.enums.lookup n = none)
      (hc : kind.scalar? = none) : Offends n (.unsupportedScalar (s.types.spell n) kind.name)
  | shape {kind} (hn : s.Shapeless n kind) :
      Offends n (.unsupportedShape (s.types.spell n) kind.shape)
  | key {key value text} (hn : s.types.kind n = .map key value) (hkey : ¬ s.KeyType key) :
      Offends n (.unsupportedMapKey text (s.types.spell n))

/-- The native leads to no pointer that only leads to further pointers. -/
def PointersEnd (n : NativeId) : Prop :=
  ∀ m, Graph.Reaches s.edges n m → ¬ s.Endless m

/-- In the pool `p` natives without a slot lead from `n` to `m`, which has none either. -/
def Enters (p : Pool) (n m : NativeId) : Prop :=
  Relation.ReflTransGen (fun a b => p.slot a = none ∧ s.Asks a b) n m ∧ p.slot m = none

variable {s}

theorem PointersEnd.reaches (h : s.PointersEnd n) (hm : Graph.Reaches s.edges n m) :
    s.PointersEnd m :=
  fun k hk => h k (hm.trans hk)

theorem PointersEnd.edge (h : s.PointersEnd n) (hm : m ∈ s.edges n) : s.PointersEnd m :=
  h.reaches (.single hm)

theorem Enters.reaches (h : s.Enters p n m) : Graph.Reaches s.edges n m :=
  Relation.ReflTransGen.mono (fun _ _ hab => hab.2) _ _ h.1

theorem enters_start : s.Enters Pool.start n m ↔ Graph.Reaches s.edges n m :=
  ⟨Enters.reaches, fun h => ⟨Relation.ReflTransGen.mono (fun _ _ hab => ⟨rfl, hab⟩) _ _ h, rfl⟩⟩

/-- A pool that grows leaves less to enter. -/
theorem Enters.of_advances (ha : p.Advances q) (h : s.Enters q n m) : s.Enters p n m := by
  have hslot : ∀ k, q.slot k = none → p.slot k = none := by
    intro k hk
    cases hp : p.slot k with
    | none => rfl
    | some slot =>
      rw [ha.slot_eq hp] at hk
      cases hk
  exact ⟨Relation.ReflTransGen.mono (fun a _ hab => ⟨hslot a hab.1, hab.2⟩) _ _ h.1,
    hslot m h.2⟩

/-- What a part enters once the native is begun, the native enters. -/
theorem Enters.of_part (hslot : p.slot n = none) {e : NativeId} (he : e ∈ s.edges n)
    (h : s.Enters (p.begin n) e m) : s.Enters p n m := by
  have hbegin : ∀ k, (p.begin n).slot k = none → p.slot k = none :=
    fun k hk => (Pool.slot_begin_eq_none_iff.1 hk).1
  exact ⟨.head ⟨hslot, he⟩
    (Relation.ReflTransGen.mono (fun a _ hab => ⟨hbegin a hab.1, hab.2⟩) _ _ h.1), hbegin m h.2⟩

/-- **Nothing stands in the way of a finished native.** -/
theorem Grounded.not_offends (hp : s.Grounded p) (hend : s.PointersEnd n)
    (hn : p.slot n = some (.done t)) : ¬ s.Offends n c := by
  intro h
  -- what was finished was built, and the ways to be built exclude each offence
  have hbuilt := hp.built n t hn
  cases h with
  | basic hk _ =>
    rw [hp.basic n ⟨_, hk⟩] at hn
    cases hn
  | declared hk he hc =>
    cases hbuilt with
    | scalar hk' _ hc' _ =>
      obtain rfl := NativeKind.named.inj (hk.1.symm.trans hk'.1)
      obtain rfl := NativeKind.basic.inj (hk.2.2.symm.trans hk'.2.2)
      rw [hc] at hc'
      cases hc'
    | _ => grind [Declares, IsInterface, NativeKind.isContainer]
  | shape hk =>
    cases hk <;> cases hbuilt <;>
      grind [Declares, IsInterface, NativeKind.isContainer, isError_of_kind_ne_named]
  -- the key of a finished map was accepted, so its type makes a key
  | @key key value text hk hkey =>
    cases hbuilt with
    | map hk' _ hx _ hlead =>
      obtain ⟨rfl, rfl⟩ := NativeKind.map.inj (hk.symm.trans hk')
      have hedge : Graph.Reaches s.edges n key := .single (by simp [edges_map hk])
      exact hkey (hp.keyType_of_leadsToKey (hend key hedge) hx hlead)
    | _ => grind [Declares, IsInterface, isError_of_kind_ne_named]

/-- Nothing stands in the way of a basic kind that has a scalar. -/
theorem not_offends_of_scalar {kind : BasicKind} {sc : Scalar}
    (hn : s.types.kind n = .basic kind) (hc : kind.scalar? = some sc) : ¬ s.Offends n c := by
  intro hoff
  cases hoff with
  | basic hn' hc' =>
    obtain rfl := NativeKind.basic.inj (hn.symm.trans hn')
    rw [hc] at hc'
    cases hc'
  | shape hn' => cases hn' <;> grind [Declares]
  | _ => grind [Declares]

end RpcSchema.Source
