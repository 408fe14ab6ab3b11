/-
  RpcSchema.Proofs.Conversion.Placeholder
  ───────────────────────────────────────
  **WHEN A PLACEHOLDER SURVIVES COMPILATION.**

  A reference that resolves to a reference is a placeholder: nothing was
  ever converted there.  In a settled pool the entries that are reached
  from the messages of a service are those that stand for the natives its
  signatures lead to, and only a pointer that leads to nothing but
  pointers stands behind a placeholder.

  Main statement: `placeholder_free_iff`.
-/
import RpcSchema.Manifest.Build
import RpcSchema.Proofs.Conversion.Extraction
import RpcSchema.Proofs.Conversion.Loop

namespace RpcSchema

/-! ## §1. From natives to entries. -/

/-- From an entry to its parts, and from a reference to the result of its native. -/
def Pool.Follows (p : Pool) (a b : EntryId) : Prop :=
  b ∈ (p.entry a).parts ∨ p.Hop a b

namespace Source

variable {s : Source} {n m : NativeId} {p : Pool} {t x : EntryId}

theorem reflTransGen_follows_of_leads {a b : EntryId} (h : p.Leads a b) :
    Relation.ReflTransGen p.Follows a b :=
  Relation.ReflTransGen.mono (fun _ _ hhop => Or.inr hhop) _ _ h

/-- **Where a native leads, the entry that stands for it follows.** -/
theorem Settled.follows_edge (hp : s.Settled p) (hx : s.Stands p n x) (hm : m ∈ s.edges n) :
    ∃ y, Relation.ReflTransGen p.Follows x y ∧ s.Stands p m y := by
  have hb : ¬ s.IsBasic n := by
    rintro ⟨kind, hk⟩
    simp [edges, steps, hk] at hm
  obtain ⟨u, hu, hlead⟩ := hp.exists_result hb hx
  have hxu := reflTransGen_follows_of_leads hlead
  -- a part of the result
  have hpart : ∀ y, y ∈ (p.entry u).parts → s.Stands p m y →
      ∃ y, Relation.ReflTransGen p.Follows x y ∧ s.Stands p m y :=
    fun y hy hst => ⟨y, hxu.tail (Or.inl hy), hst⟩
  cases hp.built n u hu with
  | pointer hn ht =>
    rw [edges_pointer hn, List.mem_singleton] at hm
    exact ⟨u, hxu, hm ▸ ht⟩
  | slice hn ht hy =>
    rw [edges_slice hn, List.mem_singleton] at hm
    exact hpart _ (by simp [ht, Entry.parts]) (hm ▸ hy)
  | map hn ht hy hz _ =>
    rw [edges_map hn, List.mem_cons, List.mem_singleton] at hm
    rcases hm with rfl | rfl
    · exact hpart _ (by simp [ht, Entry.parts]) hy
    · exact hpart _ (by simp [ht, Entry.parts]) hz
  | any hn hempty => exact absurd hm (by simp [edges_any hn hempty])
  | error hn => exact absurd hm (by simp [edges_error hn])
  | @struct decl fs ids hn ht hids =>
    rw [edges_struct hn] at hm
    obtain ⟨y, hy, hst⟩ := exists_right_of_mem hids hm
    have hparts : (p.entry u).parts = ids := by
      rw [ht]
      exact map_type_zipWith (fun f : Field => f.name) (by simpa using hids.length_eq.symm)
    exact hpart y (by rw [hparts]; exact hy) hst
  | interface hn _ ht hids =>
    rw [edges_interface hn] at hm
    obtain ⟨y, hy, hst⟩ := exists_right_of_mem hids hm
    exact hpart y (by rw [ht]; exact hy) hst
  | enum hn => exact absurd hm (by simp [edges_enumerable hn])
  | scalar hn => exact absurd hm (by simp [edges_enumerable hn])
  | through hn hc ht =>
    rw [edges_container hn hc, List.mem_singleton] at hm
    exact ⟨u, hxu, hm ▸ ht⟩
  | lifted hn hc _ hy ht =>
    rw [edges_container hn hc, List.mem_singleton] at hm
    exact hpart _ (by simp [ht, Entry.parts, Definition.parts]) (hm ▸ hy)

/-- What natives lead to, the entries that stand for them lead to. -/
theorem Settled.follows_reaches (hp : s.Settled p) (h : Graph.Reaches s.edges n m)
    (hx : s.Stands p n x) : ∃ y, Relation.ReflTransGen p.Follows x y ∧ s.Stands p m y := by
  induction h with
  | refl => exact ⟨x, .refl, hx⟩
  | tail _ hstep ih =>
    obtain ⟨y, hxy, hy⟩ := ih
    obtain ⟨z, hyz, hz⟩ := hp.follows_edge hy hstep
    exact ⟨z, hxy.trans hyz, hz⟩

/-- **An endless pointer stands behind a placeholder.** -/
theorem Settled.resolved_endless (hp : s.Settled p) (hx : s.Stands p n x) (hn : s.Endless n) :
    (p.resolved x).isReference = true := by
  obtain ⟨u, hu, hlead⟩ := hp.exists_result hn.not_isBasic hx
  obtain ⟨k, hk, hend⟩ := hp.endless n u hu hn
  obtain ⟨b, hb⟩ := hp.exists_done (hp.live u k hk)
  obtain ⟨j, hj, _⟩ := hp.endless k b hb hend
  -- flat: the reference leads to itself
  obtain rfl := hp.flat n k u b hu hk hb (by rw [hj]; rfl)
  unfold Pool.resolved
  rw [Pool.resolve_eq_of_leads hp.flat hlead, Pool.resolve_eq_resolveWithin,
    Pool.resolveWithin_self hk hb, hk]
  rfl

/-! ## §2. From entries to natives. -/

/-- The entry `a` is no reference, and its parts stand for natives of `M`, but for the text of an
error. -/
def Clear (s : Source) (p : Pool) (M : NativeId → Prop) (a : EntryId) : Prop :=
  (p.entry a).isReference = false ∧
    ∀ y ∈ (p.entry a).parts, y = .scalar .string ∨ ∃ m, M m ∧ s.Stands p m y

variable {M : NativeId → Prop}

/-- An entry that is no reference is clear if its parts stand for natives. -/
theorem clear_of_eq {e : Entry} (ht : p.entry t = e) (he : e.isReference = false)
    (hparts : ∀ y ∈ e.parts, y = .scalar .string ∨ ∃ m, M m ∧ s.Stands p m y) :
    s.Clear p M (p.resolve t) := by
  rw [resolve_eq_self ht he]
  exact ⟨by rw [ht]; exact he, by rw [ht]; exact hparts⟩

/-- A finished native has a clear image, or took over the conversion of another one. -/
theorem Settled.clear_or_takes (hp : s.Settled p) (hM : ∀ n m, M n → m ∈ s.edges n → M m)
    (hn : M n) (h : s.Built p n t) :
    s.Clear p M (p.resolve t) ∨ ∃ m, M m ∧ s.Stands p m t ∧
      (s.PointsTo n m ∨ (∃ decl, s.types.kind n = .named decl) ∧
        ((∃ elem, s.types.kind m = .slice elem) ∨
          ∃ key value, s.types.kind m = .map key value)) := by
  -- ids that stand for what the native leads to
  have hall : ∀ ids, List.Forall₂ (s.Stands p) (s.edges n) ids →
      ∀ y ∈ ids, y = .scalar .string ∨ ∃ m, M m ∧ s.Stands p m y := by
    intro ids hids y hy
    obtain ⟨m, hm, hst⟩ := exists_left_of_mem hids hy
    exact Or.inr ⟨m, hM n m hn hm, hst⟩
  cases h with
  | pointer hk ht =>
    have hm : s.PointsTo n _ := pointsTo_iff.2 (Or.inl hk)
    exact Or.inr ⟨_, hM n _ hn (by simp [hm.edges]), ht, Or.inl hm⟩
  | slice hk ht hy =>
    refine Or.inl (clear_of_eq ht rfl (hall _ ?_))
    rw [edges_slice hk]
    exact List.Forall₂.cons hy List.Forall₂.nil
  | map hk ht hy hz _ =>
    refine Or.inl (clear_of_eq ht rfl (hall _ ?_))
    rw [edges_map hk]
    exact List.Forall₂.cons hy (List.Forall₂.cons hz List.Forall₂.nil)
  | any _ _ ht =>
    refine Or.inl (clear_of_eq (ht ▸ hp.base.any) rfl fun y hy => ?_)
    exact absurd hy List.not_mem_nil
  | error _ ht =>
    refine Or.inl (clear_of_eq ht rfl fun y hy => Or.inl ?_)
    exact List.mem_singleton.1 hy
  | @struct decl fs ids hk ht hids =>
    rw [← edges_struct hk] at hids
    refine Or.inl (clear_of_eq ht rfl fun y hy => hall _ hids y ?_)
    rwa [show (Entry.definition (.message decl.name (List.zipWith (fun f id => ⟨f.name, id⟩)
      (s.shownFields decl fs) ids))).parts = ids from
        map_type_zipWith (fun f : Field => f.name) (by
          rw [← hids.length_eq, edges_struct hk, List.length_map])] at hy
  | interface hk _ ht hids =>
    rw [← edges_interface hk] at hids
    exact Or.inl (clear_of_eq ht rfl fun y hy => hall _ hids y hy)
  | @enum decl kind e _ _ ht =>
    refine Or.inl (clear_of_eq ht rfl fun y hy => ?_)
    exact absurd hy List.not_mem_nil
  | scalar _ _ _ ht =>
    refine Or.inl (clear_of_eq (ht ▸ hp.base.scalar _) rfl fun y hy => ?_)
    exact absurd hy List.not_mem_nil
  | @through decl shape hk hc ht =>
    have hedge : decl.underlying ∈ s.edges n := by simp [edges_container hk hc]
    refine Or.inr ⟨decl.underlying, hM n _ hn hedge, ht, ?_⟩
    cases shape with
    | pointer elem => exact Or.inl (pointsTo_iff.2 (Or.inr ⟨decl, elem, hk, rfl⟩))
    | slice elem => exact Or.inr ⟨⟨decl, hk.1⟩, Or.inl ⟨elem, hk.2.2⟩⟩
    | map key value => exact Or.inr ⟨⟨decl, hk.1⟩, Or.inr ⟨key, value, hk.2.2⟩⟩
    | _ => cases hc
  | lifted hk hc _ hy ht =>
    refine Or.inl (clear_of_eq ht rfl (hall _ ?_))
    rw [edges_container hk hc]
    exact List.Forall₂.cons hy List.Forall₂.nil

/-- One step along the chain of a native. -/
theorem Settled.clear_or_next (hp : s.Settled p) (hM : ∀ n m, M n → m ∈ s.edges n → M m)
    (hn : M n) (hx : s.Stands p n x) :
    s.Clear p M (p.resolve x) ∨
      ∃ m t, s.PointsTo n m ∧ M m ∧ s.Stands p m t ∧ p.resolve x = p.resolve t := by
  -- a basic kind has no slot, so that no result of it is found in the pool
  by_cases hb : s.IsBasic n
  · -- only its scalar stands for a basic kind
    cases hx with
    | scalar _ _ hx =>
      refine Or.inl (clear_of_eq (hx ▸ hp.base.scalar _) rfl fun y hy => ?_)
      exact absurd hy List.not_mem_nil
    | done hb' _ => exact absurd hb hb'
    | reference hb' _ => exact absurd hb hb'
  · obtain ⟨u, hu, hlead⟩ := hp.exists_result hb hx
    rw [Pool.resolve_eq_of_leads hp.flat hlead]
    rcases hp.clear_or_takes hM hn (hp.built n u hu) with hclear | ⟨m, hm, hst, hkind⟩
    · exact Or.inl hclear
    · rcases hkind with hpt | ⟨_, hshape⟩
      · -- a pointer: on with what it points to
        exact Or.inr ⟨m, u, hpt, hm, hst, rfl⟩
      · -- a list or a map takes over nothing
        have hbm : ¬ s.IsBasic m := by
          rintro ⟨kind, hk⟩
          rcases hshape with ⟨elem, hk'⟩ | ⟨key, value, hk'⟩ <;> simp [hk] at hk'
        obtain ⟨w, hw, hlead'⟩ := hp.exists_result hbm hst
        rw [Pool.resolve_eq_of_leads hp.flat hlead']
        refine Or.inl ((hp.clear_or_takes hM hm (hp.built m w hw)).resolve_right ?_)
        rintro ⟨k, _, _, hpt | ⟨⟨decl, hd⟩, _⟩⟩
        · rcases pointsTo_iff.1 hpt with hk | ⟨decl, elem, ⟨hk, _⟩, _⟩ <;>
            rcases hshape with ⟨elem', hk'⟩ | ⟨key, value, hk'⟩ <;> simp [hk] at hk'
        · rcases hshape with ⟨elem, hk⟩ | ⟨key, value, hk⟩ <;> simp [hd] at hk

/-- **What stands for a native that is not endless is clear.**  By induction along its chain of
pointers, which ends. -/
theorem Settled.clear (hp : s.Settled p) (hM : ∀ n m, M n → m ∈ s.edges n → M m) (hn : M n)
    (hend : ¬ s.Endless n) (hx : s.Stands p n x) : s.Clear p M (p.resolve x) := by
  refine induction_of_not_endless (P := fun k => ∀ {x}, M k → s.Stands p k x →
    s.Clear p M (p.resolve x)) (fun k ih x hk hx => ?_) hend hn hx
  rcases hp.clear_or_next hM hk hx with hclear | ⟨m, t, hm, hMm, hst, hres⟩
  · exact hclear
  · rw [hres]
    exact ih m hm hMm hst

end Source

/-! ## §3. Compilations. -/

/-- An entry that follows from the request or response of a method. -/
def Schema.Reaches (schema : Schema) (id : EntryId) : Prop :=
  ∃ root ∈ schema.roots, Relation.ReflTransGen schema.pool.Follows root id

/-- A native that the signature of a method of the service leads to. -/
def Package.Meets (pkg : Package) (o : CompileOptions) (n : NativeId) : Prop :=
  ∃ m ∈ pkg.serviceMethods o, ∃ v ∈ m.signature.requestParams ++ m.signature.results,
    Graph.Reaches (pkg.source o.fieldless).edges v.type n

namespace Package

variable {pkg : Package} {o : CompileOptions} {schema : Schema}

theorem meets_closed (n m : NativeId) (h : pkg.Meets o n)
    (hm : m ∈ (pkg.source o.fieldless).edges n) : pkg.Meets o m := by
  obtain ⟨method, hmethod, v, hv, hreach⟩ := h
  exact ⟨method, hmethod, v, hv, hreach.tail hm⟩

/-- The messages of a method carry the natives of its signature, and nothing else. -/
theorem exists_root (h : pkg.compile o = .ok schema) :
    (∀ n, (∃ m ∈ pkg.serviceMethods o, ∃ v ∈ m.signature.requestParams ++ m.signature.results,
        v.type = n) → ∃ root ∈ schema.roots, ∃ types,
          (pkg.source o.fieldless).Carries schema.pool root types ∧ n ∈ types) ∧
      ∀ root ∈ schema.roots, ∃ types,
        (pkg.source o.fieldless).Carries schema.pool root types ∧ ∀ n ∈ types, pkg.Meets o n := by
  obtain ⟨rs, hp, hserves, hmem⟩ := compile_run h
  constructor
  · -- each method of the service has its two messages among the roots
    rintro _ ⟨m, hm, v, hv, rfl⟩
    obtain ⟨r, hr, hrequest, hresponse⟩ := exists_right_of_mem hserves hm
    have hroots : r.request ∈ schema.roots ∧ r.response ∈ schema.roots := by
      constructor <;> exact List.mem_flatMap.2 ⟨r, (hmem r).2 hr, by simp⟩
    rcases List.mem_append.1 hv with hv | hv
    · exact ⟨r.request, hroots.1, _, hrequest, List.mem_map.2 ⟨v, hv, rfl⟩⟩
    · exact ⟨r.response, hroots.2, _, hresponse, List.mem_map.2 ⟨v, hv, rfl⟩⟩
  · intro root hroot
    obtain ⟨r, hr, hroot⟩ := List.mem_flatMap.1 hroot
    obtain ⟨m, hm, hrequest, hresponse⟩ := exists_left_of_mem hserves ((hmem r).1 hr)
    rcases List.mem_cons.1 hroot with rfl | hroot
    · refine ⟨_, hrequest, fun n hn => ?_⟩
      obtain ⟨v, hv, rfl⟩ := List.mem_map.1 hn
      exact ⟨m, hm, v, List.mem_append_left _ hv, .refl⟩
    · rw [List.mem_singleton.1 hroot]
      refine ⟨_, hresponse, fun n hn => ?_⟩
      obtain ⟨v, hv, rfl⟩ := List.mem_map.1 hn
      exact ⟨m, hm, v, List.mem_append_right _ hv, .refl⟩

/-- What stands for a native that is met is reached. -/
theorem reaches_of_meets (h : pkg.compile o = .ok schema) {n : NativeId} (hn : pkg.Meets o n) :
    ∃ x, schema.Reaches x ∧ (pkg.source o.fieldless).Stands schema.pool n x := by
  obtain ⟨_, hp, _, _⟩ := compile_run h
  obtain ⟨m, hm, v, hv, hreach⟩ := hn
  obtain ⟨root, hroot, types, ⟨name, fields, hentry, hfields⟩, htype⟩ :=
    (exists_root h).1 v.type ⟨m, hm, v, hv, rfl⟩
  obtain ⟨x, hx, hst⟩ := exists_right_of_mem hfields htype
  obtain ⟨y, hxy, hy⟩ := hp.follows_reaches hreach hst
  have hpart : schema.pool.Follows root x := Or.inl (by rw [hentry]; exact hx)
  exact ⟨y, ⟨root, hroot, .head hpart hxy⟩, hy⟩

/-- **Without endless pointers everything that is reached is clear.**  By induction on the way to
the entry. -/
theorem clear_of_reaches (h : pkg.compile o = .ok schema)
    (hend : ∀ n, pkg.Meets o n → ¬ (pkg.source o.fieldless).Endless n) {id : EntryId}
    (hid : schema.Reaches id) :
    (pkg.source o.fieldless).Clear schema.pool (pkg.Meets o) (schema.pool.resolve id) := by
  obtain ⟨_, hp, _, _⟩ := compile_run h
  obtain ⟨root, hroot, hpath⟩ := hid
  induction hpath with
  | refl =>
    -- a request or response
    obtain ⟨types, ⟨name, fields, hentry, hfields⟩, hmeets⟩ := (exists_root h).2 root hroot
    refine Source.clear_of_eq hentry rfl fun y hy => Or.inr ?_
    obtain ⟨n, hn, hst⟩ := exists_left_of_mem hfields hy
    exact ⟨n, hmeets n hn, hst⟩
  | @tail a b _ hstep ih =>
    rcases hstep with hpart | ⟨n, ha, hn⟩
    · rw [Pool.resolve_of_mem_parts hpart] at ih
      rcases ih.2 b hpart with rfl | ⟨m, hm, hst⟩
      · exact Source.clear_of_eq (hp.base.scalar _) rfl fun y hy => absurd hy List.not_mem_nil
      · exact hp.clear meets_closed hm (hend m hm) hst
    · -- a reference resolves to what its result resolves to
      rw [← Pool.resolve_reference hp.flat ha hn]
      exact ih

/-- **When a placeholder survives.**

In a schema that compiles everything that is reached resolves to more than a reference exactly if
no signature leads to a pointer without an end.

Such a pointer, converted when nothing on its way has a slot, comes back to a native `c`.  If `c`
has a name the conversion fails for want of a shape; if it has none the conversion succeeds with a
placeholder. -/
theorem placeholder_free_iff :
    (∀ schema, pkg.compile o = .ok schema →
      ((∀ id, schema.Reaches id → (schema.pool.resolved id).isReference = false) ↔
        ∀ n, pkg.Meets o n → ¬ (pkg.source o.fieldless).Endless n)) ∧
    ∀ n p, (pkg.source o.fieldless).Endless n →
      (∀ m, Relation.ReflTransGen (pkg.source o.fieldless).PointsTo n m → p.slot m = none) →
      ∃ c, (pkg.source o.fieldless).Loops [] n c ∧
        ((∃ decl, pkg.types.kind c = .named decl) →
          ((pkg.source o.fieldless).convert n).Fails p
            (.unsupportedShape (pkg.types.spell c) .pointer)) ∧
        ((∀ decl, pkg.types.kind c ≠ .named decl) →
          ∃ t q, ((pkg.source o.fieldless).convert n).Yields p t q ∧
            (q.resolved t).isReference = true) := by
  constructor
  · intro schema h
    constructor
    · -- what stands for an endless pointer that is met is reached
      intro hfree n hn hend
      obtain ⟨_, hp, _, _⟩ := compile_run h
      obtain ⟨x, hx, hst⟩ := reaches_of_meets h hn
      have hres := hp.resolved_endless hst hend
      rw [hfree x hx] at hres
      cases hres
    · intro hend id hid
      exact (clear_of_reaches h hend hid).1
  · -- nothing was passed, so the loop is entered on the way
    intro n p hend hslots
    obtain ⟨c, hc⟩ := Source.exists_loops hend []
    have hbudget : ((pkg.source o.fieldless).types.ids.filter (· ∉ ([] : List NativeId))).length
        + 1 ≤ (pkg.source o.fieldless).budget := by
      have hle := List.length_filter_le (· ∉ ([] : List NativeId))
        (pkg.source o.fieldless).types.ids
      have hsize : (pkg.source o.fieldless).types.ids.length
          = (pkg.source o.fieldless).types.size := by simp [Universe.ids]
      unfold Source.budget
      omega
    obtain ⟨hok, hfail⟩ := Source.convert_of_loops hc hend _ p
      (fun m hm => by simpa using hslots m hm) hbudget
    refine ⟨c, hc, fun hname => hfail List.not_mem_nil hname, fun hname => ?_⟩
    obtain ⟨t, q, ht, hentry, hs⟩ := hok (Or.inr hname)
    rw [if_neg List.not_mem_nil] at hs
    refine ⟨t, q, ht, ?_⟩
    unfold Pool.resolved
    rw [Pool.resolve_eq_resolveWithin, Pool.resolveWithin_self hentry hs, hentry]
    rfl

end Package

/-! ## §4. A pointer to itself. -/

/-- `type Knot *Knot`, asked for as `*Knot`. -/
def knotManifest : Manifest where
  path := "example.com/loop"
  name := none
  types :=
    [⟨"Knot", .type "*Knot", []⟩,
      ⟨"Tier", .struct [], [⟨"Tie", [⟨some "k", "*Knot"⟩], []⟩]⟩]
  constants := []

/-- The package of `knotManifest`. -/
def knotPackage : Package where
  path := "example.com/loop"
  name := "loop"
  types := ⟨Universe.predeclared.kinds ++
    #[.named ⟨"Knot", some "example.com/loop", .entry 23, []⟩,
      .named ⟨"Tier", some "example.com/loop", .entry 24,
        [⟨"Tie", [⟨some "k", .entry 23⟩], [], false⟩]⟩,
      .pointer (.entry 21), .struct []]⟩
  declared := [("Knot", .entry 21), ("Tier", .entry 22)]
  constants := []

/-- The options under which `knotPackage` is compiled, for the interface `Tier`. -/
def knotOptions : CompileOptions where
  package := "example.com/loop"
  entrypoint := "Tier"
  excluded := defaultExcluded
  fieldless := []
  service := none
  protoPackage := none
  options := .empty
  sortMethods := false

/-- The package compiles, and the field of its request resolves to a reference. -/
theorem knot_keeps_placeholder :
    knotManifest.build = .ok knotPackage ∧
      ∃ schema id, knotPackage.compile knotOptions = .ok schema ∧ schema.Reaches id ∧
        (schema.pool.resolved id).isReference = true := by
  have hbuild : knotManifest.build.toOption = some knotPackage := by
    decide +kernel
  have hcompile : ((knotPackage.compile knotOptions).toOption.any fun schema =>
      schema.roots.any fun root => (schema.pool.entry root).parts.any fun id =>
        (schema.pool.resolved id).isReference) = true := by
    decide +kernel
  refine ⟨eq_ok_of_toOption hbuild, ?_⟩
  obtain ⟨schema, hschema, hany⟩ := (Option.any_eq_true _ _).1 hcompile
  obtain ⟨root, hroot, hany⟩ := List.any_eq_true.1 hany
  -- the field of the request, one step from its root
  obtain ⟨id, hid, href⟩ := List.any_eq_true.1 hany
  exact ⟨schema, id, eq_ok_of_toOption hschema, ⟨root, hroot, .single (Or.inl hid)⟩, href⟩

/-- The two pointers of the package point to each other. -/
theorem knot_pointsTo_iff {n m : NativeId} (hn : n = .entry 21 ∨ n = .entry 23) :
    (knotPackage.source []).PointsTo n m ↔
      n = .entry 21 ∧ m = .entry 23 ∨ n = .entry 23 ∧ m = .entry 21 := by
  have h₁ : (knotPackage.source []).pointee (.entry 21) = some (.entry 23) := rfl
  have h₂ : (knotPackage.source []).pointee (.entry 23) = some (.entry 21) := rfl
  unfold Source.PointsTo
  rcases hn with rfl | rfl
  · simp [h₁, eq_comm]
  · simp [h₂, eq_comm]

theorem knot_endless : (knotPackage.source []).Endless (.entry 21) := by
  intro m hm
  -- the named type and its pointer lead to each other and nowhere else
  have hin : m = .entry 21 ∨ m = .entry 23 := by
    induction hm with
    | refl => exact Or.inl rfl
    | tail _ hstep ih =>
      rcases (knot_pointsTo_iff ih).1 hstep with ⟨_, h⟩ | ⟨_, h⟩
      · exact Or.inr h
      · exact Or.inl h
  rcases hin with rfl | rfl
  · exact ⟨.entry 23, rfl⟩
  · exact ⟨.entry 21, rfl⟩

/-- Asked for by its name first, the same type is refused. -/
theorem placeholder_free_iff_knot :
    (∃ schema, knotPackage.compile knotOptions = .ok schema ∧
      ((∀ id, schema.Reaches id → (schema.pool.resolved id).isReference = false) ↔
        ∀ n, knotPackage.Meets knotOptions n → ¬ (knotPackage.source []).Endless n)) ∧
    ((knotPackage.source []).convert (.entry 21)).Fails Pool.start
      (.unsupportedShape "loop.Knot" .pointer) := by
  constructor
  · obtain ⟨schema, hschema⟩ := Option.isSome_iff_exists.1
      (show (knotPackage.compile knotOptions).toOption.isSome = true by decide +kernel)
    have hok := eq_ok_of_toOption hschema
    exact ⟨schema, hok, Package.placeholder_free_iff.1 schema hok⟩
  · obtain ⟨c, hloop, hnamed, _⟩ := (Package.placeholder_free_iff (o := knotOptions)).2
      (.entry 21) Pool.start knot_endless fun _ _ => rfl
    -- the pointers lead back to where they are entered
    obtain rfl : c = .entry 21 := by
      cases hloop with
      | closes h => exact absurd h List.not_mem_nil
      | step _ hm hrest =>
        obtain rfl : _ = NativeId.entry 23 := by
          simpa using (knot_pointsTo_iff (Or.inl rfl)).1 hm
        cases hrest with
        | closes h => simp at h
        | step _ hm' hrest' =>
          obtain rfl : _ = NativeId.entry 21 := by
            simpa using (knot_pointsTo_iff (Or.inr rfl)).1 hm'
          cases hrest' with
          | closes _ => rfl
          | step h _ _ => simp at h
    exact hnamed ⟨_, rfl⟩

end RpcSchema
