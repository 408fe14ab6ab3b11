/-
  RpcSchema.Proofs.Manifest.Renumbering
  ─────────────────────────────────────
  **TWO COMPLETE DRAFTS OF TWINS DIFFER IN THEIR IDS ONLY.**

  If every type of either draft has a twin in the other, and twins are
  declared alike, then taking a type to its twin renumbers the one draft
  to the other.  A chain of names leads over the twins of its names to the
  twin of its end, so freezing the two drafts gives the same once more.

  Main statements: `exists_renumbering`, `Frozen.iso`, `exists_finish` and
  `iso_of_finish`.
-/
import RpcSchema.Proofs.Conversion.Renaming
import RpcSchema.Proofs.Manifest.Freezing
import RpcSchema.Proofs.Manifest.Twins

namespace RpcSchema

/-! ## §1. From twins to a renumbering. -/

namespace Universe

variable {u : Universe} {n : NativeId}

theorem mem_ids_iff : n ∈ u.ids ↔ u.Has n := by
  unfold ids Has
  simp only [List.mem_map, List.mem_range, eq_comm (a := n)]

theorem nodup_ids (u : Universe) : u.ids.Nodup :=
  List.nodup_range.map fun _ _ h => NativeId.entry.inj h

theorem kind_of_not_has (h : ¬ u.Has n) : u.kind n = .tuple [] := by
  by_contra hk
  exact h (has_of_kind_ne hk)

end Universe

namespace Draft

variable {d e : Draft} {n m : NativeId}

/-- What takes each type to a twin. -/
def TakesTwins (d e : Draft) (f : NativeId → NativeId) : Prop :=
  (∀ n, d.types.Has n → Twin d e n (f n)) ∧ ∀ n, ¬ d.types.Has n → f n = n

/-- If every type has a twin there is a function that takes them to twins. -/
theorem exists_takesTwins (htotal : ∀ n, d.types.Has n → ∃ m, Twin d e n m) :
    ∃ f, TakesTwins d e f := by
  classical
  refine ⟨fun n => if h : d.types.Has n then (htotal n h).choose else n, fun n hn => ?_,
    fun n hn => ?_⟩
  · simp only [hn, dif_pos]
    exact (htotal n hn).choose_spec
  · simp only [hn, dif_neg, not_false_eq_true]

/-- Different types have different twins, so there is room for all. -/
theorem size_le_of_takesTwins (hd : d.Tidy) (he : e.Tidy) {f : NativeId → NativeId}
    (hf : TakesTwins d e f) : d.types.size ≤ e.types.size := by
  -- no two types share a twin
  have hnodup : (d.types.ids.map f).Nodup := by
    refine (List.nodup_map_iff_inj_on (Universe.nodup_ids _)).2 fun n hn m hm hnm => ?_
    have htwin := hf.1 m (Universe.mem_ids_iff.1 hm)
    rw [← hnm] at htwin
    exact (hf.1 n (Universe.mem_ids_iff.1 hn)).symm.unique he hd htwin.symm
  have hsubset : d.types.ids.map f ⊆ e.types.ids := by
    intro m hm
    obtain ⟨n, hn, rfl⟩ := List.mem_map.1 hm
    exact Universe.mem_ids_iff.2 ((hf.1 n (Universe.mem_ids_iff.1 hn)).symm.has_left he)
  have hle := hnodup.length_le_of_subset hsubset
  simpa [Universe.ids] using hle

/-- **Taking types to their twins renumbers the one draft to the other**, if twins match. -/
theorem exists_renumbering (hd : d.Tidy) (he : e.Tidy)
    (htotal : ∀ n, d.types.Has n → ∃ m, Twin d e n m)
    (htotal' : ∀ m, e.types.Has m → ∃ n, Twin e d m n)
    (hkinds : ∀ n m, Twin d e n m → Matches (Twin d e) (d.types.kind n) (e.types.kind m)) :
    ∃ f, TakesTwins d e f ∧ d.types.Iso f e.types := by
  obtain ⟨f, hf⟩ := exists_takesTwins htotal
  obtain ⟨g, hg⟩ := exists_takesTwins htotal'
  -- twins in both directions make the universes equally large
  have hsize : e.types.size = d.types.size :=
    Nat.le_antisymm (size_le_of_takesTwins he hd hg) (size_le_of_takesTwins hd he hf)
  have hhas : ∀ n, e.types.Has n ↔ d.types.Has n := fun n => by
    unfold Universe.Has
    rw [hsize]
  have himage : ∀ n, d.types.Has n → d.types.Has (f n) :=
    fun n hn => (hhas _).1 ((hf.1 n hn).symm.has_left he)
  refine ⟨f, hf, ?_, hf.2 _ ?_, hsize, fun n => ?_⟩
  · -- one to one: two types with one twin are the same, and outside nothing is moved
    intro n m hnm
    by_cases hn : d.types.Has n
    · by_cases hm : d.types.Has m
      · have htwin := hf.1 m hm
        rw [← hnm] at htwin
        exact (hf.1 n hn).symm.unique he hd htwin.symm
      · rw [hf.2 m hm] at hnm
        exact absurd (hnm ▸ himage n hn) hm
    · rw [hf.2 n hn] at hnm
      by_cases hm : d.types.Has m
      · exact absurd (hnm ▸ himage m hm) hn
      · rw [hnm, hf.2 m hm]
  · rintro ⟨i, _, h⟩
    cases h
  · by_cases hn : d.types.Has n
    · -- kinds that match along twins are renamed by what takes types to twins
      refine matches_iff_eq_rename.1 ((hkinds n (f n) (hf.1 n hn)).imp fun a b hab => ?_)
      exact hab.unique hd he (hf.1 a (hab.has_left hd))
    · rw [hf.2 n hn, Universe.kind_of_not_has hn, Universe.kind_of_not_has (mt (hhas n).1 hn)]
      rfl

/-! ## §2. Chains. -/

section Freezing

variable {f : NativeId → NativeId} {u v u' v' : Universe} {passed : List NativeId} {s : NativeId}

/-- **A chain leads over the same names.** -/
theorem chain_renamed (h : u.Iso f v) (hchain : u.Chain n passed s) :
    v.Chain (f n) (passed.map f) (f s) := by
  induction hchain with
  | @last n decl hn hdefined hend =>
    have hn' : v.kind (f n) = .named (rename f decl) := by rw [h.kind, hn]; rfl
    exact .last hn' (mt h.undefined_iff.1 hdefined) (by
      rw [rename_underlying, h.isNamed]
      exact hend)
  | @step n decl passed s hn _ ih =>
    have hn' : v.kind (f n) = .named (rename f decl) := by rw [h.kind, hn]; rfl
    exact .step hn' ih

/-- **Frozen universes differ in their ids only.** -/
theorem Frozen.iso {ids ids' : List NativeId} (h : u.Iso f v) (hu : Frozen ids u u')
    (hv : Frozen ids' v v') (hids : ∀ n, f n ∈ ids' ↔ n ∈ ids)
    (hnamed : ∀ n ∈ ids, (u.kind n).isNamed = true) : u'.Iso f v' where
  injective := h.injective
  undefined := h.undefined
  size := by rw [hv.size, hu.size, h.size]
  kind n := by
    -- a name stands for the end of its chain, and chains are renamed
    by_cases hn : n ∈ ids
    · obtain ⟨decl, hk⟩ := Universe.exists_named (hnamed n hn)
      have hk' : v.kind (f n) = .named (rename f decl) := by rw [h.kind, hk]; rfl
      obtain ⟨passed, s, hchain, hkind⟩ := hu.collapsed n hn decl hk
      obtain ⟨passed', s', hchain', hkind'⟩ := hv.collapsed (f n) ((hids n).2 hn) _ hk'
      obtain ⟨_, rfl⟩ := (chain_renamed h hchain).unique hchain'
      rw [hkind, hkind']
      rfl
    · rw [hu.kept n hn, hv.kept (f n) (mt (hids n).1 hn), h.kind]

/-- `f` renumbers `d` to `e`, which declares the same names. -/
structure Renumbers (f : NativeId → NativeId) (d e : Draft) : Prop where
  types : d.types.Iso f e.types
  path : e.path = d.path
  repeated : d.repeated = [] ∧ e.repeated = []
  lookup : ∀ name, e.lookup? name = (d.lookup? name).map f

/-- A renumbering takes declared types to declared types, and no others. -/
theorem Renumbers.mem_declared (h : Renumbers f d e) (hd : d.Tidy) (he : e.Tidy) (n : NativeId) :
    f n ∈ e.declared.map (·.2) ↔ n ∈ d.declared.map (·.2) := by
  constructor
  · intro hn
    obtain ⟨⟨name, m⟩, hx, hm⟩ := List.mem_map.1 hn
    have hlook : e.lookup? name = some m := Sequence.lookup_of_mem hx he.names
    rw [h.lookup] at hlook
    obtain ⟨k, hk, hkm⟩ := Option.map_eq_some_iff.1 hlook
    -- the name tells the type on both sides
    have hkn : k = n := h.types.injective (hkm.trans hm)
    exact List.mem_map.2 ⟨(name, k), Sequence.mem_of_lookup hk, hkn⟩
  · intro hn
    obtain ⟨⟨name, m⟩, hx, rfl⟩ := List.mem_map.1 hn
    have hlook := h.lookup name
    rw [show d.lookup? name = some m from Sequence.lookup_of_mem hx hd.names] at hlook
    exact List.mem_map.2 ⟨(name, f m), Sequence.mem_of_lookup hlook, rfl⟩

theorem Tidy.isNamed_declared (hd : d.Tidy) {n : NativeId} (hn : n ∈ d.declared.map (·.2)) :
    (d.types.kind n).isNamed = true := by
  obtain ⟨x, hx, rfl⟩ := List.mem_map.1 hn
  exact hd.declared x hx

/-- **What renumbers a draft that can be frozen can be frozen.** -/
theorem exists_finish (h : Renumbers f d e) (hd : d.Tidy) (he : e.Tidy) (hfar : d.Opaque)
    (hfar' : e.Opaque) {p : Package} (hp : d.finish = .ok p) : ∃ q, e.finish = .ok q := by
  obtain ⟨_, hchains⟩ := (finish_ok_iff hd hfar).1 ⟨p, hp⟩
  refine (finish_ok_iff he hfar').2 ⟨h.repeated.2, fun m hm => ?_⟩
  obtain ⟨⟨name, m⟩, hx, rfl⟩ := List.mem_map.1 hm
  have hlook : e.lookup? name = some m := Sequence.lookup_of_mem hx he.names
  rw [h.lookup] at hlook
  obtain ⟨n, hn, rfl⟩ := Option.map_eq_some_iff.1 hlook
  obtain ⟨passed, s, hchain⟩ := hchains n (List.mem_map.2 ⟨_, Sequence.mem_of_lookup hn, rfl⟩)
  exact ⟨_, _, chain_renamed h.types hchain⟩

end Freezing

/-! ## §3. Packages. -/

section Packages

variable {f : NativeId → NativeId} {p q : Package}

/-- Freezing changes what names stand for only. -/
theorem named_of_finish (hd : d.Tidy) (hp : d.finish = .ok p) {x : String × NativeId}
    (hx : x ∈ d.declared) : ∃ decl, p.types.named? x.2 = some decl ∧ decl.name = x.1 ∧
      decl.package = some d.path := by
  obtain ⟨_, hfrozen, _⟩ := frozen_of_finish hd hp
  obtain ⟨decl, hk⟩ := Universe.exists_named (hd.declared x hx)
  obtain ⟨_, s, _, hkind⟩ := hfrozen.collapsed x.2 (List.mem_map.2 ⟨x, hx, rfl⟩) decl hk
  refine ⟨_, Universe.named?_eq_some_iff.2 hkind, ?_⟩
  have hfound : d.find? (.declared x.1) = some x.2 := Sequence.lookup_of_mem hx hd.names
  -- the origin of the type is its declaration, since titles tell types apart
  cases hd.origin x.2 decl hk with
  | builtin hn => exact absurd hn (hd.ne_error (List.mem_map.2 ⟨x, hx, rfl⟩))
  | declared hmem hpackage =>
    exact ⟨Title.declared.inj (hd.title_unique (Sequence.lookup_of_mem hmem hd.names) hfound), hpackage⟩
  | @foreign package hmem _ =>
    have htitle := hd.title_unique (t := .foreign package decl.name) (Sequence.lookup_of_mem hmem hd.keys)
      hfound
    cases htitle

/-- Only declared types have enumerations: a name of another package stands for a struct. -/
theorem lookup_of_isEnumerable (hd : d.Tidy) (hfar : d.Opaque) (hp : d.finish = .ok p)
    (hn : p.isEnumerable n = true) : ∃ name, d.lookup? name = some n := by
  obtain ⟨_, hfrozen, _⟩ := frozen_of_finish hd hp
  by_cases hmem : n ∈ d.declared.map (·.2)
  · obtain ⟨x, hx, rfl⟩ := List.mem_map.1 hmem
    exact ⟨x.1, Sequence.lookup_of_mem hx hd.names⟩
  · have hkind := hfrozen.kept n hmem
    unfold Package.isEnumerable Package.isLocal Universe.named? Universe.underlying at hn
    rw [hkind] at hn
    cases hk : d.types.kind n with
    | named decl =>
      -- a named type that is not declared is builtin or of another package, and no enumeration
      cases hd.origin n decl hk with
      | builtin hne =>
        obtain rfl := NativeKind.named.inj ((hd.builtin 18 (by decide)).symm.trans (hne ▸ hk))
        simp [hk] at hn
      | declared hdecl _ => exact absurd (List.mem_map.2 ⟨_, hdecl, rfl⟩) hmem
      | foreign hforeign _ =>
        have hshape := hfar.underlying hforeign hk
        have hkept : p.types.kind decl.underlying = .struct [] := by
          rw [hfrozen.kept _ ?_, hshape]
          intro hdecl
          have hnamed := hd.isNamed_declared hdecl
          rw [hshape] at hnamed
          cases hnamed
        have hdefined : decl.underlying ≠ .undefined := by
          intro hu
          rw [hu] at hshape
          cases hshape
        simp [hk, hdefined, hkept, NativeKind.isBasic] at hn
    | _ => simp [hk] at hn

/-- The named types of a package have the names it declares, in their order. -/
theorem map_name_namedTypes (hd : d.Tidy) (hp : d.finish = .ok p) :
    p.namedTypes.map (fun x => x.2.name) = d.declared.map (·.1) := by
  obtain ⟨_, _, hpkg⟩ := frozen_of_finish hd hp
  have hdeclared : p.declared = d.declared := by rw [hpkg]
  unfold Package.namedTypes
  rw [hdeclared, List.map_filterMap, ← List.filterMap_eq_map]
  refine List.filterMap_congr fun x hx => ?_
  obtain ⟨decl, hdecl, hname, _⟩ := named_of_finish hd hp hx
  simp [hdecl, hname]

/-- **Packages that renumbered drafts are frozen to differ in the ids of their types.** -/
theorem iso_of_finish (h : Renumbers f d e) (hd : d.Tidy) (he : e.Tidy) (hfar : d.Opaque)
    (hp : d.finish = .ok p) (hq : e.finish = .ok q)
    (hconstants : ∀ name n, d.lookup? name = some n → q.constantsOf (f n) = p.constantsOf n) :
    p.Iso f q := by
  obtain ⟨_, hfrozen, hpkg⟩ := frozen_of_finish hd hp
  obtain ⟨_, hfrozen', hqkg⟩ := frozen_of_finish he hq
  have hdeclared : p.declared = d.declared := by rw [hpkg]
  have hdeclared' : q.declared = e.declared := by rw [hqkg]
  have htypes : p.types.Iso f q.types :=
    hfrozen.iso h.types hfrozen' (h.mem_declared hd he) fun n hn => hd.isNamed_declared hn
  -- the lists of declarations have the same names, each with the renamed type
  have hperm : e.declared.Perm (d.declared.map fun x => (x.1, f x.2)) := by
    refine (List.perm_ext_iff_of_nodup he.names.of_map ?_).2 fun x => ?_
    · refine List.Nodup.of_map (·.1) ?_
      rw [List.map_map]
      exact hd.names
    · have hmem : x ∈ e.declared ↔ e.lookup? x.1 = some x.2 :=
        ⟨fun hx => Sequence.lookup_of_mem hx he.names, fun hx => Sequence.mem_of_lookup hx⟩
      rw [hmem, h.lookup, Option.map_eq_some_iff, List.mem_map]
      constructor
      · rintro ⟨n, hn, hnx⟩
        exact ⟨(x.1, n), Sequence.mem_of_lookup hn, by rw [hnx]⟩
      · rintro ⟨y, hy, rfl⟩
        exact ⟨y.2, Sequence.lookup_of_mem hy hd.names, rfl⟩
  refine ⟨?_, htypes, fun name => ?_, ?_, ?_, fun n hn => ?_⟩
  · rw [hpkg, hqkg]
    exact h.path
  · unfold Package.lookup?
    rw [hdeclared, hdeclared']
    exact h.lookup name
  · unfold Package.namedTypes
    rw [hdeclared, hdeclared', List.map_filterMap]
    refine (hperm.filterMap _).trans (List.Perm.of_eq ?_)
    rw [List.filterMap_map]
    refine List.filterMap_congr fun x _ => ?_
    simp only [Function.comp_apply, htypes.named?]
    cases p.types.named? x.2 <;> rfl
  · rw [map_name_namedTypes hd hp]
    exact hd.names
  · obtain ⟨name, hname⟩ := lookup_of_isEnumerable hd hfar hp hn
    exact hconstants name n hname

end Packages

end Draft

end RpcSchema
