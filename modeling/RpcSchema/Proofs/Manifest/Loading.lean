/-
  RpcSchema.Proofs.Manifest.Loading
  ─────────────────────────────────
  **A MANIFEST DESCRIBES A PACKAGE IF AND ONLY IF IT IS WELL-FORMED.**

  What makes a manifest well-formed is said of what is written in it, with
  no mention of how it is walked over:

    • no two types share a name;
    • every expression parses, and the names in it are known;
    • `...` stands on the last parameter of a method only;
    • what is embedded in a struct has a name;
    • from every type the names lead to a shape.

  The walk finds the faults of expressions (`walk_succeeds_iff`), and
  freezing those of names: the chains in the draft are those that are
  written (`Route.chain_iff`).

  The package then lists the types as the manifest does, and their methods
  as they are written.

  Main statement: `loading_exact`.
-/
import RpcSchema.Proofs.Manifest.Collapsing
import RpcSchema.Proofs.Manifest.Meaning

namespace RpcSchema

/-! ## §1. Well-formed manifests. -/

namespace Manifest

variable {m : Manifest}

/-- The declared type that a declaration gives another name. -/
def aliased? (m : Manifest) (decl : TypeDecl) : Option String :=
  match decl.underlying with
  | .type text =>
    match TypeExpr.parse text with
    | .ok e => e.declared? m.shortName
    | .error _ => none
  | _ => none

/-- From a declared type the names lead to a shape.  All but names of declared types end there: a
name of another package stands for an opaque struct, and `error` for an interface. -/
inductive Grounded (m : Manifest) : TypeDecl → Prop
  | shape {decl : TypeDecl} (h : m.aliased? decl = none) : Grounded m decl
  | follow {decl next : TypeDecl} (h : m.aliased? decl = some next.name) (hnext : next ∈ m.types)
      (hrest : Grounded m next) : Grounded m decl

/-- What is asked of a manifest that loads. -/
structure WellFormed (m : Manifest) : Prop where
  /-- No two types share a name. -/
  names : (m.types.map (·.name)).Nodup
  parses : ∀ t ∈ m.sites, ∃ e, TypeExpr.parse t.text = .ok e
  known : ∀ t ∈ m.sites, ∀ e, TypeExpr.parse t.text = .ok e → m.Knows e
  /-- `...` is for the last parameter of a method. -/
  variadic : ∀ t ∈ m.sites, ∀ elem, TypeExpr.parse t.text = .ok (.variadic elem) → t.last = true
  embeds : ∀ decl ∈ m.types, ∀ f ∈ decl.underlying.fields, f.Embeds
  grounded : ∀ decl ∈ m.types, m.Grounded decl

/-- What an expression has to be like. -/
theorem admits_iff_of_sites : (∀ t ∈ m.sites, m.Admits t) ↔
    (∀ t ∈ m.sites, ∃ e, TypeExpr.parse t.text = .ok e) ∧
      (∀ t ∈ m.sites, ∀ e, TypeExpr.parse t.text = .ok e → m.Knows e) ∧
      ∀ t ∈ m.sites, ∀ elem, TypeExpr.parse t.text = .ok (.variadic elem) → t.last = true := by
  constructor
  · intro h
    refine ⟨fun t ht => ?_, fun t ht e he => ?_, fun t ht elem helem => ?_⟩
    · obtain ⟨e, he, _⟩ := h t ht
      exact ⟨e, he⟩
    · obtain ⟨e', he', hknown, _⟩ := h t ht
      -- a text has one expression, so what is said of some is said of all
      obtain rfl := Except.ok.inj (he.symm.trans he')
      exact hknown
    · obtain ⟨e', he', _, hlast⟩ := h t ht
      exact hlast elem (Except.ok.inj (he'.symm.trans helem))
  · rintro ⟨hparses, hknown, hvariadic⟩ t ht
    obtain ⟨e, he⟩ := hparses t ht
    exact ⟨e, he, hknown t ht e he, fun elem heq => hvariadic t ht elem (heq ▸ he)⟩

end Manifest

namespace Building

open Draft

variable {m : Manifest} {d₀ d : Draft} {decl : TypeDecl} {k : NamedType} {n : NativeId}

/-! ## §2. Names that are repeated. -/

/-- **No name was found repeated if and only if the declared names differ.** -/
theorem repeated_iff (hrun : Runs (manifest m) (start m.path m.name) ⟨⟩ d) :
    d.repeated = [] ↔ (m.types.map (·.name)).Nodup := by
  constructor
  · intro hnone
    obtain ⟨d₀, hd⟩ := exists_route hrun hnone
    rw [← hd.names, ← hd.grows.declared]
    exact hd.tidy.names
  · intro hnames
    unfold manifest at hrun
    -- a name can only be repeated while the types are declared; what comes later keeps the list
    obtain ⟨ids, d₀, hdeclare, hrun⟩ := runs_bind.1 hrun
    obtain ⟨_, d₁, htypes, hconstants⟩ := runs_bind.1 hrun
    obtain ⟨hformed₀, _, _, _, _⟩ := declared_of_runs hdeclare
      (start_formed m.path m.name) (start_tidy _ _) (Draft.start_opaque _ _)
    obtain ⟨ids', d₀', hdeclare', h⟩ := exists_declareAll m.types (start m.path m.name)
    obtain ⟨rfl, rfl⟩ := runs_unique hdeclare' hdeclare
    have hlists : Keeps (SameLists d₀) ((ids.zip m.types).forM fun x => type x.1 x.2) :=
      keeps_forM fun x _ => keeps_lists d₀ x.1 x.2
    obtain ⟨_, _, _, hsame⟩ := hlists d₀ _ d₁ hformed₀ ⟨rfl, rfl⟩ htypes
    have hgrows := (visits_of_runs (separate_constants m.constants) (fun _ _ => trivial)
      hconstants).1
    rw [hgrows.repeated, hsame]
    exact h.distinct hnames

/-! ## §3. Chains as they are written. -/

/-- **What a declared type is another name for**, it stands for. -/
theorem Route.aliased_iff (hd : Route m d₀ d) (h : Gives d (target decl.underlying) n)
    (name : String) : m.aliased? decl = some name ↔ d.lookup? name = some n := by
  unfold Manifest.aliased?
  -- only a type that is declared as an expression can stand for a name
  cases hunder : decl.underlying with
  | struct fields =>
    rw [hunder] at h
    obtain ⟨fs, _, hshape⟩ := h.bind fun fs => adding_shape (.struct fs)
    have hkind := hshape.kind_eq rfl (by simp)
    exact ⟨nofun, fun hn => absurd hn (hd.tidy.lookup_ne_of_shape (by rw [hkind]; rfl) name)⟩
  | interface methods embeds =>
    rw [hunder] at h
    obtain ⟨shape, hkind, _⟩ := h.interface
    exact ⟨nofun, fun hn => absurd hn (hd.tidy.lookup_ne_of_shape (by rw [hkind]; rfl) name)⟩
  | type text =>
    rw [hunder] at h
    obtain ⟨e, he, E, E', hrun, hlater⟩ := Gives.parse (show Gives d (resolveText text) n from h)
    -- the name of the package does not change on the walk
    have hname : E.name = m.shortName := by
      rw [← (adding_resolve text e hrun).name, ← hlater.name, hd.grows.name]
      exact hd.name
    rw [lookup_of_resolve hrun (hd.completes hlater) name, hname]
    simp only [he]

/-- What is behind the id of a declared type. -/
theorem Route.gives_of_lookup (hd : Route m d₀ d) (hdecl : decl ∈ m.types) {id : NativeId}
    (hid : d.lookup? decl.name = some id) :
    ∃ k, d.types.kind id = .named k ∧ Gives d (target decl.underlying) k.underlying := by
  obtain ⟨id', k, hid', hk, _, hgives, _⟩ := hd.exists_defined hdecl
  obtain rfl := Option.some.inj (hid.symm.trans hid')
  exact ⟨k, hk, hgives⟩

/-- At the end of a walk every name stands for something. -/
theorem Route.underlying_ne (hd : Route m d₀ d) (hn : d.types.kind n = .named k) :
    k.underlying ≠ .undefined := by
  intro hundefined
  obtain ⟨i, _, hi⟩ := hd.defined hn
  rw [hundefined] at hi
  cases hi

/-- A name that is not declared stands for a shape. -/
theorem Route.exists_chain (hd : Route m d₀ d) {c : NamedType} (hn : d.types.kind n = .named c)
    (hother : ∀ name, d.lookup? name ≠ some n) : ∃ passed s, d.types.Chain n passed s := by
  refine ⟨[n], c.underlying, .last hn (hd.underlying_ne hn) ?_⟩
  by_contra hnamed
  obtain ⟨x, hx, rfl⟩ := List.mem_map.1 (hd.tidy.mem_declared hd.far hn (by simpa using hnamed))
  exact hother x.1 (Sequence.lookup_of_mem hx hd.tidy.names)

/-- **The chains are those that are written.**  In either direction by induction on the names. -/
theorem Route.chain_iff (hd : Route m d₀ d) (hdecl : decl ∈ m.types) {id : NativeId}
    (hid : d.lookup? decl.name = some id) :
    m.Grounded decl ↔ ∃ passed s, d.types.Chain id passed s := by
  constructor
  · intro h
    induction h generalizing id with
    | @shape decl hnone =>
      obtain ⟨k, hk, hgives⟩ := hd.gives_of_lookup hdecl hid
      have hother : ∀ name, d.lookup? name ≠ some k.underlying := by
        intro name hname
        rw [← hd.aliased_iff hgives, hnone] at hname
        cases hname
      -- the name of another package, or `error`, is a chain of its own
      by_cases hnamed : (d.types.kind k.underlying).isNamed = true
      · obtain ⟨c, hc⟩ := Universe.exists_named hnamed
        obtain ⟨passed, s, hchain⟩ := hd.exists_chain hc hother
        exact ⟨_, s, .step hk hchain⟩
      · exact ⟨[id], _, .last hk (hd.underlying_ne hk) (by simpa using hnamed)⟩
    | @follow decl next halias hnext _ ih =>
      obtain ⟨k, hk, hgives⟩ := hd.gives_of_lookup hdecl hid
      obtain ⟨passed, s, hchain⟩ := ih hnext ((hd.aliased_iff hgives next.name).1 halias)
      exact ⟨_, s, .step hk hchain⟩
  · rintro ⟨passed, s, hchain⟩
    induction hchain generalizing decl with
    | @last id k hk _ hend =>
      obtain ⟨k', hk', hgives⟩ := hd.gives_of_lookup hdecl hid
      obtain rfl := NativeKind.named.inj (hk.symm.trans hk')
      cases halias : m.aliased? decl with
      | none => exact .shape halias
      | some name =>
        exact absurd ((hd.aliased_iff hgives name).1 halias) (hd.tidy.lookup_ne_of_shape hend name)
    | @step id k passed s hk _ ih =>
      obtain ⟨k', hk', hgives⟩ := hd.gives_of_lookup hdecl hid
      obtain rfl := NativeKind.named.inj (hk.symm.trans hk')
      cases halias : m.aliased? decl with
      | none => exact .shape halias
      | some name =>
        have hlook := (hd.aliased_iff hgives name).1 halias
        obtain ⟨next, hnext, rfl⟩ := hd.exists_decl hlook
        exact .follow halias hnext (ih hnext hlook)

/-- Every declared type leads to a shape if it does so as it is written. -/
theorem Route.chains_iff (hd : Route m d₀ d) :
    (∀ n ∈ d.declared.map (·.2), ∃ passed s, d.types.Chain n passed s) ↔
      ∀ decl ∈ m.types, m.Grounded decl := by
  constructor
  · intro h decl hdecl
    obtain ⟨id, _, hid, _⟩ := hd.exists_defined hdecl
    exact (hd.chain_iff hdecl hid).2 (h id (List.mem_map.2 ⟨_, Sequence.mem_of_lookup hid, rfl⟩))
  · intro h n hn
    obtain ⟨⟨name, n⟩, hx, rfl⟩ := List.mem_map.1 hn
    have hid : d.lookup? name = some n := Sequence.lookup_of_mem hx hd.tidy.names
    obtain ⟨decl, hdecl, rfl⟩ := hd.exists_decl hid
    exact (hd.chain_iff hdecl hid).1 (h decl hdecl)

end Building

/-! ## §4. Packages. -/

/-- What names stand for in a package.  A type of another package is one that has its name and is
not declared. -/
def Package.naming (p : Package) : Naming where
  own := p.name
  declared := p.lookup?
  foreign package name n := ∃ k, p.types.kind n = .named k ∧ k.name = name ∧
    k.package = some package ∧ ∀ other, p.lookup? other ≠ some n
  kind := p.types.kind

namespace Manifest

open Building

variable {m : Manifest} {pkg : Package} {d₀ d : Draft}

/-- A manifest loads if the walk over it succeeds and what it leaves can be finished. -/
theorem build_ok_iff_finish (m : Manifest) : (∃ pkg, m.build = .ok pkg) ↔
    ∃ d, Runs (manifest m) (Draft.start m.path m.name) ⟨⟩ d ∧ ∃ pkg, d.finish = .ok pkg := by
  constructor
  · rintro ⟨pkg, hpkg⟩
    obtain ⟨d, hrun, hfinish⟩ := exists_draft hpkg
    exact ⟨d, hrun, pkg, hfinish⟩
  · rintro ⟨d, hrun, pkg, hfinish⟩
    refine ⟨pkg, ?_⟩
    unfold build
    rw [show (manifest m).run (Draft.start m.path m.name) = .ok (⟨⟩, d) from hrun]
    exact hfinish

/-- **Which manifests describe packages.** -/
theorem build_ok_iff (m : Manifest) : (∃ pkg, m.build = .ok pkg) ↔ m.WellFormed := by
  rw [build_ok_iff_finish]
  constructor
  · -- the walk tells what the texts say, the end what the names stand for
    rintro ⟨d, hrun, hfinish⟩
    obtain ⟨_, htidy, hfar⟩ := tidy_manifest hrun
    obtain ⟨hnone, hchains⟩ := (Draft.finish_ok_iff htidy hfar).1 hfinish
    obtain ⟨d₀, hd⟩ := Building.exists_route hrun hnone
    obtain ⟨hadmits, hembeds⟩ := (walk_succeeds_iff m).1 ⟨d, hrun⟩
    obtain ⟨hparses, hknown, hvariadic⟩ := admits_iff_of_sites.1 hadmits
    exact ⟨(repeated_iff hrun).1 hnone, hparses, hknown, hvariadic, hembeds,
      hd.chains_iff.1 hchains⟩
  · intro h
    obtain ⟨d, hrun⟩ := (walk_succeeds_iff m).2
      ⟨admits_iff_of_sites.2 ⟨h.parses, h.known, h.variadic⟩, h.embeds⟩
    have hnone := (repeated_iff hrun).2 h.names
    obtain ⟨d₀, hd⟩ := Building.exists_route hrun hnone
    exact ⟨d, hrun, (Draft.finish_ok_iff hd.tidy hd.far).2 ⟨hnone, hd.chains_iff.2 h.grounded⟩⟩

/-- A package looks names up as the draft it was finished from did. -/
theorem lookup_of_finish (hd : d.Tidy) (hfinish : d.finish = .ok pkg) (name : String) :
    pkg.lookup? name = d.lookup? name := by
  obtain ⟨_, _, hpkg⟩ := Draft.frozen_of_finish hd hfinish
  unfold Package.lookup?
  rw [hpkg]
  rfl

/-- What is not declared stays as it is. -/
theorem kind_of_finish (hd : d.Tidy) (hfinish : d.finish = .ok pkg) {n : NativeId}
    (hother : ∀ name, pkg.lookup? name ≠ some n) : pkg.types.kind n = d.types.kind n := by
  obtain ⟨_, hfrozen, _⟩ := Draft.frozen_of_finish hd hfinish
  refine hfrozen.kept n fun hmem => ?_
  obtain ⟨x, hx, rfl⟩ := List.mem_map.1 hmem
  refine hother x.1 ?_
  rw [lookup_of_finish hd hfinish]
  exact Sequence.lookup_of_mem hx hd.names

/-- Freezing leaves names what they stand for, and shapes as they are. -/
theorem naming_extends (hd : d.Tidy) (hfinish : d.finish = .ok pkg) :
    d.naming.Extends pkg.naming := by
  obtain ⟨_, _, hpkg⟩ := Draft.frozen_of_finish hd hfinish
  have hlookup := lookup_of_finish hd hfinish
  constructor
  case own => exact congrArg Package.name hpkg
  case declared => exact fun name n hn => (hlookup name).trans hn
  -- a name of another package is no declared one, so it is not frozen
  case foreign =>
    intro package name n hn
    obtain ⟨k, hk, hname, hpackage⟩ := hd.exists_foreign hn
    have hfound : d.find? (.foreign package name) = some n := hn
    have hother : ∀ other, pkg.lookup? other ≠ some n := by
      intro other hlook
      rw [hlookup, hd.lookup_iff_of_find hfound] at hlook
      cases hlook
    exact ⟨k, (kind_of_finish hd hfinish hother).trans hk, hname, hpackage, hother⟩
  case kind =>
    intro n k hk hname _
    refine (kind_of_finish hd hfinish fun name => ?_).trans hk
    rw [hlookup]
    exact hd.lookup_ne_of_shape (by rw [show d.types.kind n = k from hk]; exact hname) name

/-- **In a package an expression stands for one type.** -/
theorem naming_exact (hd : d.Tidy) (hfinish : d.finish = .ok pkg) : pkg.naming.Exact := by
  obtain ⟨_, hfrozen, _⟩ := Draft.frozen_of_finish hd hfinish
  have hlookup := lookup_of_finish hd hfinish
  constructor
  case foreign =>
    -- it is listed under its name, and no other type is
    have hlisted : ∀ package name n, pkg.naming.foreign package name n →
        d.foreigns.lookup (package, name) = some n := by
      rintro package name n ⟨k, hk, rfl, hpackage, hother⟩
      rw [kind_of_finish hd hfinish hother] at hk
      cases hd.origin n k hk with
      | builtin hn =>
        obtain rfl := NativeKind.named.inj ((hd.builtin 18 (by decide)).symm.trans (hn ▸ hk))
        cases hpackage
      | declared hmem _ =>
        exact absurd ((hlookup _).trans (Sequence.lookup_of_mem hmem hd.names)) (hother _)
      | foreign hmem hpackage' =>
        obtain rfl := Option.some.inj (hpackage.symm.trans hpackage')
        exact Sequence.lookup_of_mem hmem hd.keys
    intro package name n n' hn hn'
    exact Option.some.inj ((hlisted _ _ _ hn).symm.trans (hlisted _ _ _ hn'))
  case single =>
    intro n n' k hk hk' hname hne
    have hshape : ∀ n, pkg.types.kind n = k → d.types.kind n = k := by
      intro n hk
      refine (kind_of_finish hd hfinish fun name hlook => ?_).symm.trans hk
      rw [hlookup] at hlook
      have hnamed := hfrozen.isNamed_eq (fun i hi => hd.isNamed_declared hi) n
      rw [hk, hname, hd.isNamed_of_find (t := .declared name) hlook] at hnamed
      cases hnamed
    have hhas : d.types.Has n := Universe.has_of_kind_ne (by rw [hshape n hk]; exact hne)
    exact hd.single n n' hhas (by rw [hshape n hk]; exact hname)
      ((hshape n hk).trans (hshape n' hk').symm)

/-- The declared types are listed with their names and ids. -/
theorem map_namedTypes (hd : d.Tidy) (hfinish : d.finish = .ok pkg) :
    pkg.namedTypes.map (fun x => (x.2.name, x.1)) = d.declared := by
  obtain ⟨_, _, hpkg⟩ := Draft.frozen_of_finish hd hfinish
  have hdeclared : pkg.declared = d.declared := by rw [hpkg]
  unfold Package.namedTypes
  rw [hdeclared, List.map_filterMap]
  refine (List.filterMap_congr fun x hx => ?_).trans List.filterMap_some
  obtain ⟨k, hk, hname, _⟩ := Draft.named_of_finish hd hfinish hx
  simp [hk, hname]

/-- **What the package holds for a declared type.** -/
theorem exists_read (hd : Route m d₀ d) (hfinish : d.finish = .ok pkg) {decl : TypeDecl}
    (hdecl : decl ∈ m.types) : ∃ id k, (id, k) ∈ pkg.namedTypes ∧ k.name = decl.name ∧
      List.Forall₂ pkg.naming.Reads decl.methods k.methods ∧
      ∀ methods embeds, decl.underlying = .interface methods embeds → ∃ shape,
        pkg.types.kind k.underlying = .interface shape ∧
          List.Forall₂ pkg.naming.Reads methods shape.methods := by
  obtain ⟨_, hfrozen, hpkg⟩ := Draft.frozen_of_finish hd.tidy hfinish
  have hextends := naming_extends hd.tidy hfinish
  obtain ⟨id, k, hid, hk, hname, hgives, hmethods⟩ := hd.exists_defined hdecl
  have hmem : (decl.name, id) ∈ d.declared := Sequence.mem_of_lookup hid
  obtain ⟨passed, s, hchain, hkind⟩ := hfrozen.collapsed id (List.mem_map.2 ⟨_, hmem, rfl⟩) k hk
  refine ⟨id, { k with underlying := s }, ?_, hname, hmethods.imp fun _ _ h =>
    h.reads.extend hextends, fun methods embeds hunder => ?_⟩
  · refine List.mem_filterMap.2 ⟨(decl.name, id), by rw [hpkg]; exact hmem, ?_⟩
    simp [Universe.named?_eq_some_iff.2 hkind]
  · -- an interface is the end of its own chain
    rw [hunder] at hgives
    obtain ⟨shape, hshape, hreads⟩ := hgives.interface
    have hend : d.types.Chain id [id] k.underlying :=
      .last hk (hd.underlying_ne hk) (by rw [hshape]; rfl)
    obtain ⟨_, rfl⟩ := hend.unique hchain
    exact ⟨shape, hextends.kind _ _ hshape rfl (by simp),
      hreads.imp fun _ _ h => h.extend hextends⟩

/-- **Loading accepts exactly the well-formed manifests.**

A manifest describes a package if and only if it is well-formed.  The package then lists the types
in the order of the manifest, under different ids, and finds each by its name.  The methods of
every type and of every interface are those that are listed for it: their parameters and results
have the names that are written and the types that the expressions stand for, each for one; a
method is variadic exactly if its last parameter was written `...T`, and that parameter has the
slice of `T` then. -/
theorem loading_exact (m : Manifest) :
    ((∃ pkg, m.build = .ok pkg) ↔ m.WellFormed) ∧
      ∀ pkg, m.build = .ok pkg →
        pkg.namedTypes.map (fun x => x.2.name) = m.types.map (·.name) ∧
        (pkg.namedTypes.map (·.1)).Nodup ∧
        (∀ name id, pkg.lookup? name = some id ↔ ∃ k, (id, k) ∈ pkg.namedTypes ∧ k.name = name) ∧
        (∀ decl ∈ m.types, ∃ id k, (id, k) ∈ pkg.namedTypes ∧ k.name = decl.name ∧
          List.Forall₂ pkg.naming.Reads decl.methods k.methods ∧
          ∀ methods embeds, decl.underlying = .interface methods embeds → ∃ shape,
            pkg.types.kind k.underlying = .interface shape ∧
              List.Forall₂ pkg.naming.Reads methods shape.methods) ∧
        (∀ e n n', pkg.naming.Denotes e n → pkg.naming.Denotes e n' → n = n') ∧
        ∀ decl x, pkg.naming.Reads decl x →
          (x.signature.variadic = true ↔ EndsVariadic decl.params) ∧
          ∀ last elem, decl.params.getLast? = some last →
            TypeExpr.parse last.type = .ok (.variadic elem) →
            ∃ v t, x.signature.params.getLast? = some v ∧ pkg.types.kind v.type = .slice t ∧
              pkg.naming.Denotes elem t := by
  refine ⟨build_ok_iff m, fun pkg hpkg => ?_⟩
  obtain ⟨d, hrun, hfinish⟩ := exists_draft hpkg
  obtain ⟨_, htidy, hfar⟩ := tidy_manifest hrun
  obtain ⟨hnone, _, _⟩ := Draft.frozen_of_finish htidy hfinish
  obtain ⟨d₀, hd⟩ := Building.exists_route hrun hnone
  have hlisted := map_namedTypes htidy hfinish
  -- the named types are those of the list of declarations
  have hnames : pkg.namedTypes.map (fun x => x.2.name) = d.declared.map (·.1) := by
    rw [← hlisted, List.map_map]
    rfl
  have hids : pkg.namedTypes.map (·.1) = d.declared.map (·.2) := by
    rw [← hlisted, List.map_map]
    rfl
  refine ⟨?_, ?_, fun name id => ?_, fun decl hdecl => exists_read hd hfinish hdecl,
    fun e n n' hn hn' => hn.unique (naming_exact htidy hfinish) hn',
    fun decl x hx => ⟨hx.variadic, fun last elem hlast hparse => hx.exists_slice hlast hparse⟩⟩
  · rw [hnames, hd.grows.declared]
    exact hd.names
  · rw [hids]
    exact (List.nodup_append.1 (List.nodup_cons.1 htidy.apart).2).1
  · have hlookup : pkg.lookup? name = some id ↔ (name, id) ∈ d.declared := by
      rw [lookup_of_finish htidy hfinish]
      exact ⟨fun h => Sequence.mem_of_lookup h, fun h => Sequence.lookup_of_mem h htidy.names⟩
    rw [hlookup, ← hlisted, List.mem_map]
    constructor
    · rintro ⟨⟨id', k⟩, hmem, heq⟩
      obtain ⟨rfl, rfl⟩ := Prod.mk.inj heq
      exact ⟨k, hmem, rfl⟩
    · rintro ⟨k, hmem, rfl⟩
      exact ⟨(id, k), hmem, rfl⟩

/-! ## §5. A harbor. -/

/-- `Berth` is another name for `Quay`, in which a type of another package is embedded. -/
def harborManifest : Manifest where
  path := "example.com/harbor"
  name := none
  types :=
    [⟨"Berth", .type "Quay", []⟩, ⟨"Quay", .struct [⟨none, "*geo.Place"⟩], []⟩,
      ⟨"Ship", .type "map[string]harbor.Berth", [⟨"Call", [⟨some "ports", "...string"⟩], []⟩]⟩,
      ⟨"Harbor", .interface [⟨"Dock", [⟨some "at", "Berth"⟩, ⟨none, "... *Ship"⟩],
        [⟨none, "error"⟩]⟩] [], []⟩]
  constants := [⟨"Main", "Berth", "0"⟩]

/-- The manifest is well-formed, and a ship calls at ports of a slice of texts. -/
theorem loading_exact_harbor :
    ∃ pkg, harborManifest.build = .ok pkg ∧ harborManifest.WellFormed ∧
      ∃ id k x v, (id, k) ∈ pkg.namedTypes ∧ k.name = "Ship" ∧ k.methods = [x] ∧
        x.signature.variadic = true ∧ x.signature.params.getLast? = some v ∧
        pkg.types.kind v.type = .slice (.basic .string) := by
  have hbuild : harborManifest.build.toOption.isSome = true := by decide +kernel
  have hparse : (TypeExpr.parse "...string").toOption
      = some (.variadic (.unqualified "string")) := by decide +kernel
  have hparse := eq_ok_of_toOption hparse
  obtain ⟨pkg, hpkg⟩ := Option.isSome_iff_exists.1 hbuild
  have hpkg := eq_ok_of_toOption hpkg
  obtain ⟨hiff, htable⟩ := loading_exact harborManifest
  obtain ⟨_, _, _, hmethods, hunique, hvariadic⟩ := htable pkg hpkg
  -- the declaration of the ship, and what was read for it
  obtain ⟨id, k, hmem, hname, hreads, _⟩ := hmethods
    ⟨"Ship", .type "map[string]harbor.Berth", [⟨"Call", [⟨some "ports", "...string"⟩], []⟩]⟩
    (by simp [harborManifest])
  generalize hx : k.methods = xs at hreads
  cases hreads with
  | @cons _ x _ _ hcall hnone =>
    cases hnone
    obtain ⟨hflag, hslice⟩ := hvariadic _ x hcall
    obtain ⟨v, t, hv, hkind, hstands⟩ := hslice _ _ rfl hparse
    -- an expression denotes one type
    have hstring : t = .basic .string := hunique _ _ _ hstands (.basic (by decide))
    rw [hstring] at hkind
    exact ⟨pkg, hpkg, hiff.1 ⟨pkg, hpkg⟩, id, k, x, v, hmem, hname, hx,
      hflag.2 ⟨_, _, rfl, hparse⟩, hv, hkind⟩

end Manifest

end RpcSchema
