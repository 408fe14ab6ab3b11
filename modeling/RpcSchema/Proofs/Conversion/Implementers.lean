/-
  RpcSchema.Proofs.Conversion.Implementers
  ────────────────────────────────────────
  **THE IMPLEMENTATIONS OF AN INTERFACE ARE MESSAGES.**

  A service adds messages of its own, but no interface; so every interface
  of its schema is the result of a native interface, and lists the results
  of the structs that implement it.

  Main statements: `titled_of_compile` and `implementation_is_message`.
-/
import RpcSchema.Proofs.Conversion.Calls

namespace RpcSchema

/-! ## §1. Implementations. -/

/-- A method answers a wanted one: it has its name, and a signature that is identical but for the
names of parameters and results. -/
structure Method.Answers (own wanted : Method) : Prop where
  name : own.name = wanted.name
  params : own.signature.params.map (·.type) = wanted.signature.params.map (·.type)
  results : own.signature.results.map (·.type) = wanted.signature.results.map (·.type)
  variadic : own.signature.variadic = wanted.signature.variadic

/-- A method answers another one if it has its name and an identical signature. -/
theorem Method.answers_iff {own wanted : Method} :
    own.Answers wanted ↔
      own.name = wanted.name ∧ own.signature.identical wanted.signature = true := by
  rw [Signature.identical_iff]
  constructor
  · intro h
    exact ⟨h.name, h.variadic, h.params, h.results⟩
  · intro h
    obtain ⟨hname, hvariadic, hparams, hresults⟩ := h
    exact ⟨hname, hparams, hresults, hvariadic⟩

theorem NativeKind.isStruct_iff {kind : NativeKind} :
    kind.isStruct = true ↔ ∃ fs, kind = .struct fs := by
  cases kind <;> simp [isStruct]

namespace Package

variable {p : Package} {n id : NativeId} {decl : NamedType} {required : List Method}

/-- **What is asked of an implementation.** -/
theorem isImplementation_iff :
    p.isImplementation required decl = true ↔
      Text.isExported decl.name = true ∧ (∃ fs, p.types.kind decl.underlying = .struct fs) ∧
        ∀ wanted ∈ required, ∃ own ∈ decl.methods, own.Answers wanted := by
  unfold isImplementation satisfies
  simp [NativeKind.isStruct_iff, Method.answers_iff, and_assoc]

/-- The named types of a package are those of its declarations. -/
theorem mem_namedTypes_iff :
    (id, decl) ∈ p.namedTypes ↔
      (∃ name, (name, id) ∈ p.declared) ∧ p.types.kind id = .named decl := by
  unfold namedTypes
  rw [List.mem_filterMap, ← Universe.named?_eq_some_iff]
  constructor
  · intro h
    -- a declaration is kept under its id if it has a named type there
    obtain ⟨⟨name, id'⟩, hmem, hdecl⟩ := h
    obtain ⟨decl', hdecl', hpair⟩ := Option.map_eq_some_iff.1 hdecl
    obtain ⟨rfl, rfl⟩ := Prod.mk.inj hpair
    exact ⟨⟨name, hmem⟩, hdecl'⟩
  · intro h
    obtain ⟨⟨name, hmem⟩, hdecl⟩ := h
    refine ⟨(name, id), hmem, ?_⟩
    show (p.types.named? id).map (id, ·) = _
    rw [hdecl]
    rfl

/-- An interface that asks for something is implemented by the declared types that do what is
asked. -/
theorem mem_implementations_iff (hasks : p.types.methodSet n ≠ []) :
    id ∈ p.implementations n ↔
      ∃ decl, (id, decl) ∈ p.namedTypes ∧
        p.isImplementation (p.types.methodSet n) decl = true := by
  unfold implementations
  simp only [List.isEmpty_iff, if_neg hasks, List.mem_map, Sequence.mem_sortBy, List.mem_filter]
  constructor
  · intro h
    obtain ⟨⟨id', decl⟩, hfound, rfl⟩ := h
    exact ⟨decl, hfound⟩
  · intro h
    obtain ⟨decl, hfound⟩ := h
    exact ⟨(id, decl), hfound, rfl⟩

/-- The structs that implement an interface are some of the declared types, by name. -/
theorem exists_found (pkg : Package) (n : NativeId) :
    ∃ found : List (NativeId × NamedType), found.Sublist pkg.namedTypes ∧
      (∀ x ∈ found, pkg.types.kind x.1 = .named x.2 ∧
        pkg.isImplementation (pkg.types.methodSet n) x.2 = true) ∧
      pkg.implementations n = (Sequence.sortBy (fun x => x.2.name) found).map (·.1) := by
  unfold implementations
  dsimp only
  -- an interface that asks for nothing is implemented by nothing
  split
  · exact ⟨[], List.nil_sublist _, fun _ h => absurd h List.not_mem_nil, rfl⟩
  · refine ⟨pkg.namedTypes.filter fun x => pkg.isImplementation (pkg.types.methodSet n) x.2,
      List.filter_sublist, fun x hx => ?_, rfl⟩
    obtain ⟨hnamed, himpl⟩ := List.mem_filter.1 hx
    exact ⟨(mem_namedTypes_iff.1 hnamed).2, himpl⟩

end Package

namespace Source

variable {s : Source} {p : Pool} {n m : NativeId} {t x : EntryId}

/-- An implementation is a named struct. -/
theorem declares_of_mem_implementations (h : m ∈ s.package.implementations n) :
    ∃ decl fs, s.Declares m decl (.struct fs) := by
  obtain ⟨found, _, hfound, himplementations⟩ := s.package.exists_found n
  rw [himplementations] at h
  obtain ⟨⟨id, decl⟩, hmem, rfl⟩ := List.mem_map.1 h
  obtain ⟨hk, himpl⟩ := hfound _ (Sequence.mem_sortBy.1 hmem)
  obtain ⟨_, ⟨fs, hu⟩, _⟩ := Package.isImplementation_iff.1 himpl
  have hkind : s.types.kind id = .named decl := hk
  have hshape : s.types.kind decl.underlying = .struct fs := hu
  exact ⟨decl, fs, hkind, by simp [Universe.isError, hkind, hshape], hshape⟩

/-- What has an image and is no basic kind is finished. -/
theorem done_of_image (hb : ¬ s.IsBasic n) (h : s.image p n = some t) :
    ∃ u, p.slot n = some (.done u) ∧ t = p.resolve u := by
  unfold image at h
  split at h
  · rename_i kind hk
    exact absurd ⟨kind, hk⟩ hb
  · split at h
    · rename_i u hu
      exact ⟨u, hu, (Option.some.inj h).symm⟩
    · cases h

/-- The image of a named struct is a message. -/
theorem Settled.message_of_image (hp : s.Settled p) {decl : NamedType} {fs : List Field}
    (hn : s.Declares n decl (.struct fs)) (h : s.image p n = some t) :
    ∃ fields, p.entry t = .definition (.message decl.name fields) := by
  have hb : ¬ s.IsBasic n := by
    rintro ⟨kind, hk⟩
    cases hn.1.symm.trans hk
  obtain ⟨u, hu, rfl⟩ := done_of_image hb h
  obtain ⟨fields, hfields, _⟩ := (hp.faithful (hp.built n u hu)).struct decl fs hn
  exact ⟨fields, hfields⟩

/-- **The implementations of an interface resolve to messages.** -/
theorem Settled.implementation_resolves (hp : s.Settled p) {decl : NamedType}
    {asked : InterfaceShape} {name : String} {ids : List EntryId}
    (hn : s.Declares n decl (.interface asked)) (hslot : p.slot n = some (.done t))
    (ht : p.entry t = .definition (.interface name ids)) (hx : x ∈ ids) :
    ∃ name fields, p.resolved x = .definition (.message name fields) := by
  have hself : p.resolve t = t := resolve_eq_self ht rfl
  have hfaithful := hp.faithful (hp.built n t hslot)
  rw [hself] at hfaithful
  by_cases hempty : s.types.methodSet n = []
  · -- an interface that asks for nothing is unconstrained
    rw [(hfaithful.any (Or.inr ⟨decl, asked, hn⟩) hempty).2] at ht
    cases ht
  · obtain ⟨ids', hids', himages⟩ := hfaithful.interface decl asked hn hempty
    rw [ht] at hids'
    cases hids'
    -- each implementation is the image of an exported struct, and that is a message
    obtain ⟨k, hk, himage⟩ := exists_left_of_mem himages hx
    obtain ⟨d, fs, hd⟩ := declares_of_mem_implementations hk
    obtain ⟨fields, hfields⟩ := hp.message_of_image hd himage
    exact ⟨d.name, fields, hfields⟩

end Source

/-! ## §2. Compilations. -/

namespace Package

variable {pkg : Package} {o : CompileOptions} {schema : Schema} {id x : EntryId}

/-- A definition of a schema that is no message is the result of a native type that asks for it. -/
theorem titled_of_compile (h : pkg.compile o = .ok schema) {d : Definition}
    (hd : schema.pool.entry id = .definition d) (hother : ∀ name fields, d ≠ .message name fields) :
    ∃ n, schema.pool.slot n = some (.done id) ∧ (pkg.source o.fieldless).Titles n d := by
  let other : Definition → Prop := fun d => ∀ name fields, d ≠ .message name fields
  obtain ⟨methods, pool, hrun, rfl, _⟩ := extraction_of_compile h
  -- what the methods themselves add are messages
  have hlasting : (pkg.source o.fieldless).Lasting ((pkg.source o.fieldless).Assigned other) :=
    ⟨(pkg.source o.fieldless).stable_assigned other, fun name fields hp =>
      hp.define fun hmessage => hmessage name fields rfl⟩
  -- so the definitions that are no messages come from natives alone
  have hkeeps := Conversion.Keeps.mapM hlasting.keeps_extractMethod (pkg.serviceMethods o)
  have hrest := hkeeps.of_yields hrun (Source.atRest_start Source.assigned_start)
  exact hrest.holds.titled id d hd hother

/-- **The implementations of an interface of a schema are messages.** -/
theorem implementation_is_message (h : pkg.compile o = .ok schema) {name : String}
    {ids : List EntryId} (hid : schema.pool.entry id = .definition (.interface name ids))
    (hx : x ∈ ids) :
    ∃ name fields, schema.pool.resolved x = .definition (.message name fields) := by
  obtain ⟨_, hp, _, _⟩ := compile_run h
  obtain ⟨n, hslot, htitle⟩ := titled_of_compile h hid fun _ _ hd => by cases hd
  cases htitle with
  | interface hn => exact hp.implementation_resolves hn hslot hid hx

end Package

end RpcSchema
