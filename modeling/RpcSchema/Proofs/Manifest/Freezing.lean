/-
  RpcSchema.Proofs.Manifest.Freezing
  ──────────────────────────────────
  **FREEZING A DRAFT FOLLOWS EVERY CHAIN OF NAMES TO ITS END.**

  The chains are followed in turn, each on what the ones before it left.
  To collapse one chain shortens others but moves no end, so the order
  does not matter: every declared type receives the end of its chain in
  the draft.  A chain that ends passes no name twice, and all its names
  but the last are declared, so there are always enough hops.

  Main statements: `finish_ok_iff` (which drafts can be frozen),
  `frozen_of_finish` (what they are frozen to) and `shape_of_named` (in a
  package every name stands for a shape).
-/
import Mathlib.Data.List.Nodup
import RpcSchema.Proofs.Manifest.Tidy

namespace RpcSchema

/-! ## §1. Chains of names. -/

namespace Universe

/-- From the named type `n` the underlying types lead over the named types `passed` to `s`, the
first that has no name. -/
inductive Chain (u : Universe) : NativeId → List NativeId → NativeId → Prop
  | last {n decl} (hn : u.kind n = .named decl) (hdefined : decl.underlying ≠ .undefined)
      (hend : (u.kind decl.underlying).isNamed = false) : Chain u n [n] decl.underlying
  | step {n decl passed s} (hn : u.kind n = .named decl)
      (hrest : Chain u decl.underlying passed s) : Chain u n (n :: passed) s

variable {u : Universe} {n m s s' : NativeId} {passed passed' : List NativeId}

theorem Chain.isNamed (h : u.Chain n passed s) : (u.kind n).isNamed = true := by
  cases h with
  | last hn _ _ => rw [hn]; rfl
  | step hn _ => rw [hn]; rfl

theorem Chain.end_not_named (h : u.Chain n passed s) : (u.kind s).isNamed = false := by
  induction h with
  | last _ _ hend => exact hend
  | step _ _ ih => exact ih

theorem Chain.end_ne_undefined (h : u.Chain n passed s) : s ≠ .undefined := by
  induction h with
  | last _ hdefined _ => exact hdefined
  | step _ _ ih => exact ih

/-- The end of a chain is what some name on it stands for. -/
theorem Chain.exists_underlying (h : u.Chain n passed s) :
    ∃ m decl, u.kind m = .named decl ∧ decl.underlying = s := by
  induction h with
  | last hn _ _ => exact ⟨_, _, hn, rfl⟩
  | step _ _ ih => exact ih

theorem Chain.length_pos (h : u.Chain n passed s) : 0 < passed.length := by
  cases h <;> exact Nat.succ_pos _

/-- There is one way to go. -/
theorem Chain.unique (h : u.Chain n passed s) (h' : u.Chain n passed' s') :
    passed = passed' ∧ s = s' := by
  -- on one chain; the other one takes the same step, since a name stands for one type
  induction h generalizing passed' with
  | @last n decl hn _ hend =>
    cases h' with
    | last hn' _ _ =>
      obtain rfl := NativeKind.named.inj (hn.symm.trans hn')
      exact ⟨rfl, rfl⟩
    | step hn' hrest =>
      obtain rfl := NativeKind.named.inj (hn.symm.trans hn')
      rw [hrest.isNamed] at hend
      cases hend
  | @step n decl passed s hn hrest ih =>
    cases h' with
    | last hn' _ hend =>
      obtain rfl := NativeKind.named.inj (hn.symm.trans hn')
      rw [hrest.isNamed] at hend
      cases hend
    | step hn' hrest' =>
      obtain rfl := NativeKind.named.inj (hn.symm.trans hn')
      obtain ⟨rfl, rfl⟩ := ih hrest'
      exact ⟨rfl, rfl⟩

/-- From a name on the chain what is left of it leads on. -/
theorem Chain.from_mem (h : u.Chain n passed s) (hm : m ∈ passed) :
    ∃ rest, u.Chain m rest s ∧ rest.length ≤ passed.length := by
  -- a type passed on the way starts the rest of the chain
  induction h with
  | last hn hdefined hend =>
    rw [List.mem_singleton.1 hm]
    exact ⟨_, .last hn hdefined hend, Nat.le_refl _⟩
  | step hn hrest ih =>
    rcases List.mem_cons.1 hm with rfl | hm
    · exact ⟨_, .step hn hrest, Nat.le_refl _⟩
    · obtain ⟨rest, hchain, hle⟩ := ih hm
      exact ⟨rest, hchain, Nat.le_succ_of_le hle⟩

/-- **A chain that ends passes no name twice.** -/
theorem Chain.nodup (h : u.Chain n passed s) : passed.Nodup := by
  induction h with
  | last => exact List.nodup_cons.2 ⟨List.not_mem_nil, List.nodup_nil⟩
  | @step n decl passed s hn hrest ih =>
    refine List.nodup_cons.2 ⟨fun hmem => ?_, ih⟩
    -- the chain from `n` would be shorter than itself
    obtain ⟨rest, hchain, hle⟩ := hrest.from_mem hmem
    obtain ⟨rfl, _⟩ := hchain.unique (.step hn hrest)
    exact Nat.not_succ_le_self _ hle

/-- If names for names are listed, a chain that ends is hardly longer than the list. -/
theorem Chain.length_le {listed : List NativeId}
    (hlisted : ∀ n decl, u.kind n = .named decl → (u.kind decl.underlying).isNamed = true →
      n ∈ listed) (h : u.Chain n passed s) : passed.length ≤ listed.length + 1 := by
  -- every name but the last stands for a name, so it is listed
  have hinit : ∀ m ∈ passed.dropLast, m ∈ listed := by
    induction h with
    | last => exact fun m hm => absurd hm List.not_mem_nil
    | @step n decl passed s hn hrest ih =>
      intro m hm
      have hne : passed ≠ [] := List.ne_nil_of_length_pos hrest.length_pos
      rw [List.dropLast_cons_of_ne_nil hne] at hm
      rcases List.mem_cons.1 hm with rfl | hm
      · exact hlisted m decl hn hrest.isNamed
      · exact ih m hm
  -- and none is passed twice
  have hnodup : passed.dropLast.Nodup := h.nodup.sublist (List.dropLast_sublist _)
  have hle := hnodup.length_le_of_subset hinit
  rw [List.length_dropLast] at hle
  omega

theorem named?_eq_none_iff : u.named? n = none ↔ (u.kind n).isNamed = false := by
  unfold named?
  cases u.kind n <;> simp [NativeKind.isNamed]

theorem nameOf_of_kind {decl : NamedType} (h : u.kind n = .named decl) :
    Draft.nameOf u n = decl.name := by
  rw [Draft.nameOf, named?_eq_some_iff.2 h]
  rfl

/-- **A chain is followed to its end**, if there are enough hops. -/
theorem Chain.chainEnd_eq (h : u.Chain n passed s) (entered : NativeId) {hops : Nat}
    (hhops : passed.length ≤ hops) : Draft.chainEnd u entered hops n = .ok s := by
  -- on the chain, with one hop for each name
  induction h generalizing hops with
  | last hn hdefined hend =>
    obtain ⟨k, rfl⟩ : ∃ k, hops = k + 1 := ⟨hops - 1, by simp at hhops; omega⟩
    simp only [Draft.chainEnd, named?_eq_some_iff.2 hn, hdefined, if_false,
      named?_eq_none_iff.2 hend]
  | @step n decl passed s hn hrest ih =>
    obtain ⟨k, rfl⟩ : ∃ k, hops = k + 1 := ⟨hops - 1, by simp at hhops; omega⟩
    have hnamed := hrest.isNamed
    have hdefined : decl.underlying ≠ .undefined := by
      intro hu
      rw [hu] at hnamed
      cases hnamed
    obtain ⟨decl', hd⟩ : ∃ decl', u.named? decl.underlying = some decl' := by
      rw [← Option.ne_none_iff_exists']
      intro hnone
      rw [named?_eq_none_iff.1 hnone] at hnamed
      cases hnamed
    simp only [Draft.chainEnd, named?_eq_some_iff.2 hn, hdefined, if_false, hd]
    exact ih (Nat.le_of_succ_le_succ hhops)

/-- What a chain was followed to is its end. -/
theorem chain_of_chainEnd {entered : NativeId} {hops : Nat}
    (hn : (u.kind n).isNamed = true) (h : Draft.chainEnd u entered hops n = .ok s) :
    ∃ passed, u.Chain n passed s := by
  -- on the hops
  induction hops generalizing n with
  | zero => cases h
  | succ hops ih =>
    cases hk : u.kind n with
    | named decl =>
      simp only [Draft.chainEnd, named?_eq_some_iff.2 hk] at h
      split at h
      · cases h
      · rename_i hdefined
        cases hu : u.named? decl.underlying with
        | none =>
          simp only [hu] at h
          cases h
          exact ⟨_, .last hk hdefined (named?_eq_none_iff.1 hu)⟩
        | some decl' =>
          simp only [hu] at h
          have hnamed : (u.kind decl.underlying).isNamed = true := by
            by_contra hnot
            rw [named?_eq_none_iff.2 (by simpa using hnot)] at hu
            cases hu
          obtain ⟨passed, hchain⟩ := ih hnamed h
          exact ⟨_, .step hk hchain⟩
    | _ =>
      rw [hk] at hn
      cases hn

/-! ## §2. Collapsing one chain. -/

section Collapse

variable {id shape : NativeId} {via : List NativeId}

theorem isNamed_setUnderlying (u : Universe) (id underlying n : NativeId) :
    ((u.setUnderlying id underlying).kind n).isNamed = (u.kind n).isNamed :=
  isNamed_modifyNamed u id _ n

theorem kind_setUnderlying_of_ne (underlying : NativeId) (h : n ≠ id) :
    (u.setUnderlying id underlying).kind n = u.kind n :=
  kind_modifyNamed_of_ne _ h

theorem kind_setUnderlying_self {decl : NamedType} (underlying : NativeId)
    (h : u.kind n = .named decl) :
    (u.setUnderlying n underlying).kind n = .named { decl with underlying } :=
  kind_modifyNamed_self _ h

/-- No chain ends elsewhere, and none becomes longer. -/
theorem Chain.collapsed (hid : u.Chain id via shape) (h : u.Chain n passed s) :
    ∃ passed', (u.setUnderlying id shape).Chain n passed' s ∧
      passed'.length ≤ passed.length := by
  -- the chain that is collapsed takes one hop
  have hone : ∀ {passed}, u.Chain id passed s → ∃ passed',
      (u.setUnderlying id shape).Chain id passed' s ∧ passed'.length ≤ passed.length := by
    intro passed h
    obtain ⟨rfl, rfl⟩ := h.unique hid
    obtain ⟨decl, hk⟩ := exists_named hid.isNamed
    have hend : ((u.setUnderlying id s).kind s).isNamed = false := by
      rw [isNamed_setUnderlying]
      exact hid.end_not_named
    exact ⟨[id], .last (kind_setUnderlying_self _ hk) hid.end_ne_undefined hend, hid.length_pos⟩
  induction h with
  | @last n decl hn hdefined hend =>
    by_cases hne : n = id
    · obtain rfl := hne
      exact hone (.last hn hdefined hend)
    · refine ⟨[n], .last ((kind_setUnderlying_of_ne _ hne).trans hn) hdefined ?_, Nat.le_refl _⟩
      rw [isNamed_setUnderlying]
      exact hend
  | @step n decl passed s hn hrest ih =>
    by_cases hne : n = id
    · obtain rfl := hne
      exact hone (.step hn hrest)
    · obtain ⟨passed', hchain, hle⟩ := ih hone
      exact ⟨n :: passed', .step ((kind_setUnderlying_of_ne _ hne).trans hn) hchain,
        Nat.succ_le_succ hle⟩

/-- Where a chain of a collapsed universe ends, one from the same name ended before. -/
theorem Chain.of_collapsed (hid : u.Chain id via shape)
    (h : (u.setUnderlying id shape).Chain n passed s) : ∃ passed', u.Chain n passed' s := by
  obtain ⟨decl, hk⟩ := exists_named hid.isNamed
  induction h with
  | @last n decl' hn hdefined hend =>
    by_cases hne : n = id
    · subst hne
      obtain rfl := NativeKind.named.inj ((kind_setUnderlying_self _ hk).symm.trans hn)
      exact ⟨via, hid⟩
    · rw [isNamed_setUnderlying] at hend
      exact ⟨[n], .last ((kind_setUnderlying_of_ne _ hne).symm.trans hn) hdefined hend⟩
  | @step n decl' passed s hn hrest ih =>
    by_cases hne : n = id
    · -- what is collapsed stands for a shape
      subst hne
      obtain rfl := NativeKind.named.inj ((kind_setUnderlying_self _ hk).symm.trans hn)
      have hnamed := hrest.isNamed
      rw [isNamed_setUnderlying, hid.end_not_named] at hnamed
      cases hnamed
    · obtain ⟨passed', hchain⟩ := ih
      exact ⟨n :: passed', .step ((kind_setUnderlying_of_ne _ hne).symm.trans hn) hchain⟩

end Collapse

end Universe

/-! ## §3. Collapsing all chains. -/

namespace Draft

/-- In `v` each of the ids stands for the end of its chain in `u`, and all else is as it was. -/
structure Frozen (ids : List NativeId) (u v : Universe) : Prop where
  size : v.size = u.size
  kept : ∀ n, n ∉ ids → v.kind n = u.kind n
  collapsed : ∀ n ∈ ids, ∀ decl, u.kind n = .named decl →
    ∃ passed s, u.Chain n passed s ∧ v.kind n = .named { decl with underlying := s }

variable {u v : Universe} {ids : List NativeId} {hops : Nat}

/-- **Whatever the order, every type receives the end of its own chain.** -/
theorem frozen_of_collapse (hnamed : ∀ id ∈ ids, (u.kind id).isNamed = true)
    (h : collapse hops u ids = .ok v) : Frozen ids u v := by
  -- on the names that are left, of which the first is frozen now
  induction ids generalizing u with
  | nil =>
    cases h
    exact ⟨rfl, fun _ _ => rfl, fun n hn => absurd hn List.not_mem_nil⟩
  | cons id rest ih =>
    unfold collapse at h
    split at h
    · cases h
    · rename_i shape hshape
      obtain ⟨via, hid⟩ := Universe.chain_of_chainEnd (hnamed id List.mem_cons_self) hshape
      have hrest : Frozen rest (u.setUnderlying id shape) v := by
        refine ih (fun m hm => ?_) h
        rw [Universe.isNamed_setUnderlying]
        exact hnamed m (List.mem_cons_of_mem id hm)
      refine ⟨hrest.size.trans (Universe.size_modifyNamed _ _ _), fun n hn => ?_,
        fun n hn decl hk => ?_⟩
      · -- a type that is not listed is not touched
        have hne : n ≠ id := fun hni => hn (hni ▸ List.mem_cons_self)
        rw [hrest.kept n fun hnr => hn (List.mem_cons_of_mem id hnr),
          Universe.kind_setUnderlying_of_ne _ hne]
      · by_cases hni : n = id
        · subst hni
          have hself := Universe.kind_setUnderlying_self shape hk
          -- the name may be listed again, and is then frozen once more
          by_cases hnr : n ∈ rest
          · obtain ⟨passed, s, hchain, hv⟩ := hrest.collapsed n hnr _ hself
            obtain ⟨passed', hchain'⟩ := hid.of_collapsed hchain
            exact ⟨passed', s, hchain', hv⟩
          · exact ⟨via, shape, hid, (hrest.kept n hnr).trans hself⟩
        · have hk' := (Universe.kind_setUnderlying_of_ne shape hni).trans hk
          obtain ⟨passed, s, hchain, hv⟩ :=
            hrest.collapsed n ((List.mem_cons.1 hn).resolve_left hni) decl hk'
          obtain ⟨passed', hchain'⟩ := hid.of_collapsed hchain
          exact ⟨passed', s, hchain', hv⟩

/-- **Chains that all end can be collapsed.** -/
theorem exists_collapse (h : ∀ id ∈ ids, ∃ passed s, u.Chain id passed s ∧ passed.length ≤ hops) :
    ∃ v, collapse hops u ids = .ok v := by
  -- on the declared types: collapsing one leaves the other chains no longer
  induction ids generalizing u with
  | nil => exact ⟨u, rfl⟩
  | cons id rest ih =>
    obtain ⟨via, shape, hid, hle⟩ := h id List.mem_cons_self
    unfold collapse
    rw [hid.chainEnd_eq id hle]
    refine ih fun m hm => ?_
    obtain ⟨passed, s, hchain, hle'⟩ := h m (List.mem_cons_of_mem id hm)
    obtain ⟨passed', hchain', hle''⟩ := hid.collapsed hchain
    exact ⟨passed', s, hchain', Nat.le_trans hle'' hle'⟩

/-! ## §4. Freezing. -/

variable {d : Draft}

/-- A name for a name is declared. -/
theorem Tidy.mem_declared (h : d.Tidy) (ho : d.Opaque) {n : NativeId} {decl : NamedType}
    (hn : d.types.kind n = .named decl) (hu : (d.types.kind decl.underlying).isNamed = true) :
    n ∈ d.declared.map (·.2) := by
  cases h.origin n decl hn with
  | builtin hne =>
    rw [h.underlying_error (hne ▸ hn)] at hu
    cases hu
  | declared hmem _ => exact List.mem_map.2 ⟨_, hmem, rfl⟩
  -- foreign types stand for empty structs
  | foreign hmem _ =>
    rw [ho.underlying hmem hn] at hu
    cases hu

/-- **Which drafts can be frozen**: no name is declared twice, and every declared type leads to a
shape. -/
theorem finish_ok_iff (h : d.Tidy) (ho : d.Opaque) :
    (∃ pkg, d.finish = .ok pkg) ↔
      d.repeated = [] ∧ ∀ id ∈ d.declared.map (·.2), ∃ passed s, d.types.Chain id passed s := by
  have hnamed : ∀ id ∈ d.declared.map (·.2), (d.types.kind id).isNamed = true := by
    intro id hid
    obtain ⟨x, hx, rfl⟩ := List.mem_map.1 hid
    exact h.declared x hx
  unfold finish
  constructor
  · rintro ⟨pkg, hpkg⟩
    split at hpkg
    · cases hpkg
    · rename_i hnone
      refine ⟨hnone, fun id hid => ?_⟩
      split at hpkg
      · cases hpkg
      · rename_i v hv
        -- what was frozen had a chain
        have hfrozen := frozen_of_collapse hnamed hv
        obtain ⟨decl, hk⟩ := Universe.exists_named (hnamed id hid)
        obtain ⟨passed, s, hchain, _⟩ := hfrozen.collapsed id hid decl hk
        exact ⟨passed, s, hchain⟩
  · rintro ⟨hnone, hchains⟩
    -- the hops that are allowed suffice for every chain
    have henough : ∀ id ∈ d.declared.map (·.2), ∃ passed s, d.types.Chain id passed s ∧
        passed.length ≤ d.declared.length + 1 := by
      intro id hid
      obtain ⟨passed, s, hchain⟩ := hchains id hid
      have hle := hchain.length_le fun n decl hn hu => h.mem_declared ho hn hu
      rw [List.length_map] at hle
      exact ⟨passed, s, hchain, hle⟩
    obtain ⟨v, hv⟩ := exists_collapse henough
    rw [hnone]
    simp only [hv]
    exact ⟨_, rfl⟩

/-- **What a draft is frozen to.** -/
theorem frozen_of_finish (h : d.Tidy) {pkg : Package} (hpkg : d.finish = .ok pkg) :
    d.repeated = [] ∧ Frozen (d.declared.map (·.2)) d.types pkg.types ∧
      pkg = ⟨d.path, d.name, pkg.types, d.declared, d.constants⟩ := by
  unfold finish at hpkg
  -- neither a repeated name nor a chain without an end
  split at hpkg
  · cases hpkg
  · rename_i hnone
    split at hpkg
    · cases hpkg
    · rename_i v hv
      cases hpkg
      refine ⟨hnone, frozen_of_collapse (fun id hid => ?_) hv, rfl⟩
      obtain ⟨x, hx, rfl⟩ := List.mem_map.1 hid
      exact h.declared x hx

end Draft

/-- A manifest that describes a package is walked over to a draft that can be frozen. -/
theorem Manifest.exists_draft {m : Manifest} {pkg : Package} (h : m.build = .ok pkg) :
    ∃ d, Building.Runs (Building.manifest m) (Draft.start m.path m.name) ⟨⟩ d ∧
      d.finish = .ok pkg := by
  unfold Manifest.build at h
  split at h
  · cases h
  · rename_i draft hrun
    exact ⟨draft, hrun, h⟩

/-- **In a package every name stands for a shape**, and for none that is a tuple. -/
theorem Manifest.shape_of_named {m : Manifest} {pkg : Package} (h : m.build = .ok pkg)
    {n : NativeId} {decl : NamedType} (hn : pkg.types.kind n = .named decl) :
    (pkg.types.kind decl.underlying).isNamed = false ∧
      (pkg.types.kind decl.underlying).shape ≠ .tuple := by
  obtain ⟨d, hrun, hfinish⟩ := Manifest.exists_draft h
  obtain ⟨_, htidy, hfar⟩ := Building.tidy_manifest hrun
  obtain ⟨_, hfrozen, _⟩ := Draft.frozen_of_finish htidy hfinish
  -- what has no name stays as it is
  have hkeep : ∀ s, (d.types.kind s).isNamed = false → pkg.types.kind s = d.types.kind s := by
    intro s hs
    refine hfrozen.kept s fun hmem => ?_
    obtain ⟨x, hx, rfl⟩ := List.mem_map.1 hmem
    rw [htidy.declared x hx] at hs
    cases hs
  by_cases hmem : n ∈ d.declared.map (·.2)
  · obtain ⟨x, hx, hxn⟩ := List.mem_map.1 hmem
    obtain ⟨decl₀, hk⟩ := Universe.exists_named (hxn ▸ htidy.declared x hx)
    obtain ⟨passed, s, hchain, hv⟩ := hfrozen.collapsed n hmem decl₀ hk
    obtain rfl := NativeKind.named.inj (hv.symm.trans hn)
    obtain ⟨k, declk, hkk, rfl⟩ := hchain.exists_underlying
    show (pkg.types.kind declk.underlying).isNamed = false ∧ _
    rw [hkeep _ hchain.end_not_named]
    exact ⟨hchain.end_not_named,
      htidy.shaped _ ((htidy.parts k declk hkk).resolve_left hchain.end_ne_undefined)⟩
  · have hk : d.types.kind n = .named decl := (hfrozen.kept n hmem).symm.trans hn
    have hname : (d.types.kind decl.underlying).isNamed = false := by
      by_contra hnot
      exact hmem (htidy.mem_declared hfar hk (by simpa using hnot))
    rw [hkeep _ hname]
    refine ⟨hname, ?_⟩
    cases htidy.origin n decl hk with
    | builtin hne =>
      rw [htidy.underlying_error (hne ▸ hk)]
      simp [NativeKind.shape]
    | declared hdecl _ => exact absurd (List.mem_map.2 ⟨_, hdecl, rfl⟩) hmem
    | foreign hforeign _ =>
      rw [hfar.underlying hforeign hk]
      simp [NativeKind.shape]

end RpcSchema
