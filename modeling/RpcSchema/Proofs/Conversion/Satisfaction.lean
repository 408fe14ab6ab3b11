/-
  RpcSchema.Proofs.Conversion.Satisfaction
  ────────────────────────────────────────
  **WHO IMPLEMENTS AN INTERFACE.**

  The structs that implement an interface are found by structure: a
  declared struct that is exported implements it if it declares a method
  for every one of the method set, with the same name and an identical
  signature.  In a package that a manifest describes types have different
  names, so the structs are listed in strictly ascending order.

  Main statement: `implementations_satisfy_exactly`.
-/
import RpcSchema.Proofs.Conversion.Implementers
import RpcSchema.Proofs.Manifest.Renumbering
import RpcSchema.Proofs.Native.Flattening

namespace RpcSchema

/-! ## §1. The names of the structs that implement an interface. -/

namespace Package

variable {pkg : Package} {n : NativeId}

/-- The names of the structs that implement an interface. -/
def implementationNames (p : Package) (n : NativeId) : List String :=
  (p.implementations n).map (Draft.nameOf p.types)

/-- The names are those of some of the declared types, which are exported, in ascending order. -/
theorem exists_implementing (pkg : Package) (n : NativeId) :
    ∃ found : List (NativeId × NamedType), found.Sublist pkg.namedTypes ∧
      (∀ x ∈ found, Text.isExported x.2.name = true) ∧
      pkg.implementationNames n = Sequence.sortBy (·) (found.map (·.2.name)) := by
  obtain ⟨found, hsub, hfound, himplementations⟩ := pkg.exists_found n
  refine ⟨found, hsub, fun x hx => ?_, ?_⟩
  · exact (isImplementation_iff.1 (hfound x hx).2).1
  · -- sorted by name, the ids have their names in order
    have hsort : ∀ l : List (NativeId × NamedType),
        (Sequence.sortBy (fun x => x.2.name) l).map (fun x => x.2.name)
          = Sequence.sortBy (·) (l.map fun x => x.2.name) := Sequence.map_sortBy fun _ => rfl
    unfold implementationNames
    rw [himplementations, List.map_map, ← hsort]
    refine List.map_congr_left fun x hx => ?_
    exact Universe.nameOf_of_kind (hfound x (Sequence.mem_sortBy.1 hx)).1

/-- Only exported types are listed as implementations. -/
theorem isExported_of_mem_implementationNames {name : String}
    (h : name ∈ pkg.implementationNames n) : Text.isExported name = true := by
  obtain ⟨found, _, hexported, hnames⟩ := exists_implementing pkg n
  rw [hnames, Sequence.mem_sortBy] at h
  obtain ⟨x, hx, rfl⟩ := List.mem_map.1 h
  exact hexported x hx

/-- Structs with different names are listed by name. -/
theorem implementationNames_ascend (h : (pkg.namedTypes.map fun x => x.2.name).Nodup) :
    (pkg.implementationNames n).Pairwise (· < ·) := by
  obtain ⟨found, hfound, _, hnames⟩ := exists_implementing pkg n
  have hnodup : ((found.map fun x => x.2.name).map fun name => name).Nodup := by
    rw [List.map_id']
    exact h.sublist (hfound.map _)
  rw [hnames]
  exact Sequence.sortBy_ascends (·) hnodup

end Package

/-! ## §2. The types that a manifest declares. -/

namespace Manifest

variable {m : Manifest} {pkg : Package}

/-- In a package that a manifest describes types have different names. -/
theorem nodup_namedTypes (h : m.build = .ok pkg) :
    (pkg.namedTypes.map fun x => x.2.name).Nodup := by
  obtain ⟨d, hrun, hfinish⟩ := Manifest.exists_draft h
  obtain ⟨_, htidy, _⟩ := Building.tidy_manifest hrun
  rw [Draft.map_name_namedTypes htidy hfinish]
  exact htidy.names

/-- What is declared under a name is a named type of that name. -/
theorem exists_named_of_declared (h : m.build = .ok pkg) {name : String} {id : NativeId}
    (hid : (name, id) ∈ pkg.declared) :
    ∃ decl, pkg.types.kind id = .named decl ∧ decl.name = name := by
  obtain ⟨d, hrun, hfinish⟩ := Manifest.exists_draft h
  obtain ⟨_, htidy, _⟩ := Building.tidy_manifest hrun
  obtain ⟨_, _, hpkg⟩ := Draft.frozen_of_finish htidy hfinish
  -- freezing leaves the list of declared types as it was
  have hdeclared : (name, id) ∈ d.declared := by
    rw [hpkg] at hid
    exact hid
  obtain ⟨decl, hdecl, hname, _⟩ := Draft.named_of_finish htidy hfinish hdeclared
  exact ⟨decl, Universe.named?_eq_some_iff.1 hdecl, hname⟩

/-- The named types of a package that was built are those of its declarations. -/
theorem mem_namedTypes_iff (h : m.build = .ok pkg) {id : NativeId} {decl : NamedType} :
    (id, decl) ∈ pkg.namedTypes ↔
      (decl.name, id) ∈ pkg.declared ∧ pkg.types.kind id = .named decl := by
  rw [Package.mem_namedTypes_iff]
  constructor
  · intro hboth
    obtain ⟨⟨name, hid⟩, hk⟩ := hboth
    obtain ⟨decl', hk', hname⟩ := exists_named_of_declared h hid
    -- one id is one type
    obtain rfl := NativeKind.named.inj (hk.symm.trans hk')
    exact ⟨hname ▸ hid, hk⟩
  · intro hboth
    exact ⟨⟨decl.name, hboth.1⟩, hboth.2⟩

end Manifest

/-! ## §3. Implementations. -/

/-- **Who implements an interface.**

For every package that a manifest describes and every type of it, however its embeddings nest or
lead back: the recursive walk along embeddings, which comes by each type once, ends with one list
of types.  The method set has exactly the names that are contributed by a type which embeddings
lead to, in strictly ascending order, and for each of them the first method that the types of the
walk contribute.  If it has any, the implementations are exactly the declared structs with an
exported name that declare, for every method of the set, one that answers it; and they are in
strictly ascending order of their names. -/
theorem implementations_satisfy_exactly {m : Manifest} {pkg : Package} (h : m.build = .ok pkg)
    (n : NativeId) :
    (∃ walk,
      (∀ found, Graph.Descends pkg.types.embeds [] [n] found ↔ found = walk) ∧
      ∀ method, method ∈ pkg.types.methodSet n ↔
        (walk.flatMap pkg.types.ownMethods).find? (fun c => c.name = method.name) = some method) ∧
    (∀ name, name ∈ (pkg.types.methodSet n).map (·.name) ↔
      ∃ t method, Relation.ReflTransGen pkg.types.Embedding n t ∧
        pkg.types.Contributes t method ∧ method.name = name) ∧
    (pkg.types.methodSet n).Pairwise (fun a b => a.name < b.name) ∧
    (pkg.types.methodSet n ≠ [] →
      (∀ id, id ∈ pkg.implementations n ↔
        ∃ (decl : NamedType) (fs : List Field), (decl.name, id) ∈ pkg.declared ∧
          pkg.types.kind id = .named decl ∧ Text.isExported decl.name = true ∧
          pkg.types.kind decl.underlying = .struct fs ∧
          ∀ wanted ∈ pkg.types.methodSet n, ∃ own ∈ decl.methods, own.Answers wanted) ∧
      (pkg.implementations n).Pairwise fun a b =>
        Draft.nameOf pkg.types a < Draft.nameOf pkg.types b) := by
  refine ⟨⟨pkg.types.embeddingOrder n, fun found => ?_, fun method => ?_⟩, fun name => ?_,
    pkg.types.methodSet_ascends n, fun hasks => ⟨fun id => ?_, ?_⟩⟩
  · exact Graph.descends_iff pkg.types.embeds_of_not_mem_ids
  · exact Universe.mem_methodSet_iff
  · exact Universe.name_mem_methodSet_iff
  · rw [Package.mem_implementations_iff hasks]
    constructor
    · intro hfound
      obtain ⟨decl, hnamed, himpl⟩ := hfound
      obtain ⟨hdeclared, hk⟩ := (Manifest.mem_namedTypes_iff h).1 hnamed
      -- what the test looks at is what the package declares
      obtain ⟨hexported, ⟨fs, hstruct⟩, hanswers⟩ := Package.isImplementation_iff.1 himpl
      exact ⟨decl, fs, hdeclared, hk, hexported, hstruct, hanswers⟩
    · intro hfound
      obtain ⟨decl, fs, hdeclared, hk, hexported, hstruct, hanswers⟩ := hfound
      exact ⟨decl, (Manifest.mem_namedTypes_iff h).2 ⟨hdeclared, hk⟩,
        Package.isImplementation_iff.2 ⟨hexported, ⟨fs, hstruct⟩, hanswers⟩⟩
  · have hascend := Package.implementationNames_ascend (n := n) (Manifest.nodup_namedTypes h)
    unfold Package.implementationNames at hascend
    exact List.pairwise_map.1 hascend

/-! ## §4. Interfaces that embed each other. -/

/-- A source and a stream embed each other; a pipe answers one method of the source with another
signature, and a device is not exported. -/
def streamManifest : Manifest where
  path := "example.com/stream"
  name := none
  types :=
    [⟨"Source", .interface [⟨"Name", [], [⟨none, "string"⟩]⟩] ["Stream", "Stamp"], []⟩,
      ⟨"Stream", .interface [⟨"Read", [⟨some "p", "[]byte"⟩], [⟨none, "int"⟩]⟩] ["Source"], []⟩,
      ⟨"Stamp", .struct [], [⟨"Age", [], [⟨none, "int64"⟩]⟩, ⟨"Name", [], [⟨none, "int"⟩]⟩]⟩,
      ⟨"File", .struct [],
        [⟨"Read", [⟨none, "[]byte"⟩], [⟨some "n", "int"⟩]⟩, ⟨"Name", [], [⟨none, "string"⟩]⟩,
          ⟨"Age", [], [⟨none, "int64"⟩]⟩]⟩,
      ⟨"Pipe", .struct [],
        [⟨"Read", [⟨none, "[]byte"⟩], [⟨none, "int"⟩]⟩, ⟨"Name", [], [⟨none, "int"⟩]⟩,
          ⟨"Age", [], [⟨none, "int64"⟩]⟩]⟩,
      ⟨"device", .struct [],
        [⟨"Read", [⟨none, "[]byte"⟩], [⟨none, "int"⟩]⟩, ⟨"Name", [], [⟨none, "string"⟩]⟩,
          ⟨"Age", [], [⟨none, "int64"⟩]⟩]⟩]
  constants := []

/-- The file is the only source: it answers all three methods. -/
theorem implementations_satisfy_exactly_stream :
    ∃ pkg n file, streamManifest.build = .ok pkg ∧ pkg.lookup? "Source" = some n ∧
      (pkg.types.methodSet n).map (·.name) = ["Age", "Name", "Read"] ∧
      pkg.implementations n = [file] ∧
      ∃ (decl : NamedType) (fs : List Field), (decl.name, file) ∈ pkg.declared ∧
        pkg.types.kind decl.underlying = .struct fs ∧
        ∀ wanted ∈ pkg.types.methodSet n, ∃ own ∈ decl.methods, own.Answers wanted := by
  have hbuild : (streamManifest.build.toOption.any fun pkg =>
      (pkg.lookup? "Source").any fun n =>
        (pkg.lookup? "File").any fun file => decide
          ((pkg.types.methodSet n).map (·.name) = ["Age", "Name", "Read"] ∧
            pkg.implementations n = [file])) = true := by
    decide +kernel
  obtain ⟨pkg, hpkg, hn⟩ := (Option.any_eq_true _ _).1 hbuild
  obtain ⟨n, hlookup, hfile⟩ := (Option.any_eq_true _ _).1 hn
  obtain ⟨file, _, hfacts⟩ := (Option.any_eq_true _ _).1 hfile
  obtain ⟨hnames, hfound⟩ := of_decide_eq_true hfacts
  have hok := eq_ok_of_toOption hpkg
  -- the interface asks for something, so its implementations are looked for
  have hasks : pkg.types.methodSet n ≠ [] := by
    intro hempty
    rw [hempty] at hnames
    cases hnames
  obtain ⟨_, _, _, himplementations⟩ := implementations_satisfy_exactly hok n
  obtain ⟨decl, fs, hdeclared, _, _, hstruct, hanswers⟩ :=
    ((himplementations hasks).1 file).1 (hfound ▸ List.mem_singleton_self file)
  exact ⟨pkg, n, file, hok, hlookup, hnames, hfound, decl, fs, hdeclared, hstruct, hanswers⟩

end RpcSchema
