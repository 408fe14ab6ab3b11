/-
  RpcSchema.Proofs.Proto.Oneof
  ────────────────────────────
  **WHEN THE MEMBERS OF A ONEOF SHARE A NAME.**

  An interface is written as a oneof with a member for every struct that
  implements it, and a member is called like its struct, in snake case.
  Structs have different names, but what tells two names apart need not
  survive: `HTTPServer` and `HttpServer` are both written `http_server`,
  and a struct `Value` gives its member the name of the oneof.

  Main statement: `oneof_members_distinct_iff`.
-/
import RpcSchema.Proofs.Conversion.Satisfaction
import RpcSchema.Proofs.Proto.NameOrder
import RpcSchema.Proofs.Text.SnakeCase

namespace RpcSchema

/-! ## §1. The members of a oneof. -/

/-- The member of a oneof for a struct. -/
def memberField (name : String) : ProtoField :=
  ⟨.plain (.block name), Text.snakeCase name⟩

/-- An implementation that is a message is the member of its name. -/
theorem Pool.implementationField_eq {p : Pool} {x : EntryId} {name : String}
    {fields : List MessageField} (h : p.entry (p.resolve x) = .definition (.message name fields)) :
    p.implementationField x = memberField name := by
  -- a message is no optional, so it is its own element
  have helement : p.element x = p.resolve x := element_of_not_optional fun y hy => by
    rw [hy] at h
    cases h
  have hname : p.elementName x = .block name := by
    unfold elementName
    dsimp only
    rw [helement, h]
    rfl
  unfold implementationField
  rw [hname]
  rfl

namespace Package

variable {pkg : Package} {o : CompileOptions} {schema : Schema} {a : EntryId} {name : String}
  {ids : List EntryId}

/-- **An interface of a schema lists the structs that implement it.** -/
theorem exists_interface (h : pkg.compile o = .ok schema)
    (ha : schema.pool.entry a = .definition (.interface name ids)) :
    ∃ n, name = Draft.nameOf pkg.types n ∧
      ids.map schema.pool.implementationField = (pkg.implementationNames n).map memberField := by
  obtain ⟨_, hp, _, _⟩ := compile_run h
  obtain ⟨n, hslot, htitle⟩ := titled_of_compile h ha fun _ _ hd => by cases hd
  cases htitle with
  | @interface decl asked hn =>
    have hfaithful := hp.faithful (hp.built n a hslot)
    rw [Source.resolve_eq_self ha rfl] at hfaithful
    -- an interface that asks for nothing is unconstrained, and no definition
    have hasks : pkg.types.methodSet n ≠ [] := by
      intro hempty
      have hany := (hfaithful.any (Or.inr ⟨decl, asked, hn⟩) hempty).2
      rw [ha] at hany
      cases hany
    obtain ⟨ids', hids', himages⟩ := hfaithful.interface decl asked hn hasks
    rw [ha] at hids'
    cases hids'
    refine ⟨n, (Universe.nameOf_of_kind hn.1).symm, ?_⟩
    unfold implementationNames
    rw [List.map_map]
    have hmembers := (List.forall₂_and_left _ _).2 ⟨fun m hm => hm, himages⟩
    refine (forall₂_map_eq (fun m x hmx => ?_) hmembers).symm
    obtain ⟨d, fs, hd⟩ := Source.declares_of_mem_implementations hmx.1
    obtain ⟨fields, hentry⟩ := hp.message_of_image hd hmx.2
    rw [Pool.implementationField_eq hentry, ← Universe.nameOf_of_kind hd.1]
    rfl

/-- A block with a oneof is that of an interface, and has a member for every struct that implements
it. -/
theorem oneof_of_compile (h : pkg.compile o = .ok schema) {b : Block}
    (hb : b ∈ schema.document.blocks) {fields : List ProtoField} (hbody : b.body = .oneof fields) :
    ∃ n, b.name = Draft.nameOf pkg.types n ∧
      fields = (pkg.implementationNames n).map memberField := by
  rcases Schema.mem_blocks_cases hb with ⟨a, d, _, ha, rfl⟩ | ⟨w, _, rfl⟩
  · cases d with
    | message | enum => cases hbody
    | interface name ids =>
      obtain ⟨n, hname, hmembers⟩ := exists_interface h ha
      refine ⟨n, hname, ?_⟩
      -- without implementations the block has no oneof
      cases ids with
      | nil => cases hbody
      | cons x rest =>
        rw [← hmembers]
        exact (BlockBody.oneof.inj hbody).symm
  · cases hbody

end Package

/-! ## §2. The names of the members. -/

/-- Two names have the same words, however these are written. -/
def SameWords (a b : String) : Prop :=
  (Text.words a).map Text.lowercase = (Text.words b).map Text.lowercase

theorem map_name_memberField (names : List String) :
    (names.map memberField).map (·.name) = names.map Text.snakeCase := by
  rw [List.map_map]
  rfl

theorem nodup_members_iff (names : List String) :
    ((names.map memberField).map (·.name)).Nodup ↔ names.Pairwise fun a b => ¬ SameWords a b := by
  rw [map_name_memberField, List.Nodup, List.pairwise_map]
  simp only [ne_eq, Text.snakeCase_eq_iff, SameWords]

/-- A member is called like the oneof itself only for a type of that name, in capitals or not. -/
theorem value_mem_members_iff {names : List String}
    (h : ∀ name ∈ names, Text.isExported name = true) :
    "value" ∈ (names.map memberField).map (·.name) ↔ "Value" ∈ names ∨ "VALUE" ∈ names := by
  rw [map_name_memberField, List.mem_map]
  constructor
  · intro hmem
    obtain ⟨name, hname, hvalue⟩ := hmem
    -- only two exported names become the word of the oneof
    rcases (Text.snakeCase_eq_value_iff (h name hname)).1 hvalue with rfl | rfl
    · exact Or.inl hname
    · exact Or.inr hname
  · intro hmem
    rcases hmem with hname | hname
    · exact ⟨_, hname, (Text.snakeCase_eq_value_iff rfl).2 (Or.inl rfl)⟩
    · exact ⟨_, hname, (Text.snakeCase_eq_value_iff rfl).2 (Or.inr rfl)⟩

/-- Names in camel case give members of different names. -/
theorem nodup_members_of_isCamel {names : List String} (hnodup : names.Nodup)
    (hcamel : ∀ name ∈ names, Text.IsCamel name) :
    ((names.map memberField).map (·.name)).Nodup := by
  rw [map_name_memberField]
  exact List.Nodup.map_on (fun a ha b hb hab =>
    Text.snakeCase_injective_of_isCamel (hcamel a ha) (hcamel b hb) hab) hnodup

/-- **When the members of a oneof share a name.**

For every schema that compiles and every block of it with a oneof: the block is that of an
interface, and its members are the structs that implement the interface, whose names are exported,
and different in a package that a manifest describes.  Two members have one name exactly if the
names of their structs have the same words, however these are written; a member is called `value`
exactly if its struct is called `Value` or `VALUE`.  If the names are in camel case the members have
different names. -/
theorem oneof_members_distinct_iff {pkg : Package} {o : CompileOptions} {schema : Schema}
    (h : pkg.compile o = .ok schema) {b : Block} (hb : b ∈ schema.document.blocks)
    {fields : List ProtoField} (hbody : b.body = .oneof fields) :
    ∃ n, b.name = Draft.nameOf pkg.types n ∧
      fields = (pkg.implementationNames n).map memberField ∧
      (∀ name ∈ pkg.implementationNames n, Text.isExported name = true) ∧
      (∀ m : Manifest, m.build = .ok pkg → (pkg.implementationNames n).Pairwise (· < ·)) ∧
      ((fields.map (·.name)).Nodup ↔
        (pkg.implementationNames n).Pairwise fun a b => ¬ SameWords a b) ∧
      ("value" ∈ fields.map (·.name) ↔
        "Value" ∈ pkg.implementationNames n ∨ "VALUE" ∈ pkg.implementationNames n) ∧
      ((pkg.implementationNames n).Nodup →
        (∀ name ∈ pkg.implementationNames n, Text.IsCamel name) →
        (fields.map (·.name)).Nodup) := by
  obtain ⟨n, hname, rfl⟩ := Package.oneof_of_compile h hb hbody
  -- unexported structs are no implementations
  have hexported : ∀ name ∈ pkg.implementationNames n, Text.isExported name = true :=
    fun _ => Package.isExported_of_mem_implementationNames
  exact ⟨n, hname, rfl, hexported,
    fun _ hbuild => Package.implementationNames_ascend (Manifest.nodup_namedTypes hbuild),
    nodup_members_iff _, value_mem_members_iff hexported, nodup_members_of_isCamel⟩

/-! ## §3. An interface whose members share a name, and one whose members do not. -/

/-- A method that takes a server and a shape; the structs that are servers are named alike. -/
def hostManifest : Manifest where
  path := "example.com/host"
  name := none
  types :=
    [⟨"Server", .interface [⟨"Addr", [], [⟨none, "string"⟩]⟩] [], []⟩,
      ⟨"HTTPServer", .struct [], [⟨"Addr", [], [⟨none, "string"⟩]⟩]⟩,
      ⟨"HttpServer", .struct [], [⟨"Addr", [], [⟨none, "string"⟩]⟩]⟩,
      ⟨"Value", .struct [], [⟨"Addr", [], [⟨none, "string"⟩]⟩]⟩,
      ⟨"Shape", .interface [⟨"Area", [], [⟨none, "int"⟩]⟩] [], []⟩,
      ⟨"Circle", .struct [], [⟨"Area", [], [⟨none, "int"⟩]⟩]⟩,
      ⟨"TextBox", .struct [], [⟨"Area", [], [⟨none, "int"⟩]⟩]⟩,
      ⟨"Host", .struct [],
        [⟨"Serve", [⟨some "server", "Server"⟩, ⟨some "shape", "Shape"⟩], []⟩]⟩]
  constants := []

/-- The options under which `hostManifest` is compiled. -/
def hostOptions : CompileOptions where
  package := "example.com/host"
  entrypoint := "Host"
  excluded := []
  fieldless := []
  service := none
  protoPackage := none
  options := .empty
  sortMethods := false

/-- **Two members of one name, and one with the name of the oneof.** -/
theorem host_repeats_members :
    ∃ pkg schema, hostManifest.build = .ok pkg ∧ pkg.compile hostOptions = .ok schema ∧
      ∃ b ∈ schema.document.blocks, ∃ fields, b.body = .oneof fields ∧
        fields.map (·.name) = ["http_server", "http_server", "value"] ∧
        b.text =
          "message Server \x7b\n  oneof value \x7b\n" ++
          "    HTTPServer http_server = 1;\n    HttpServer http_server = 2;\n" ++
          "    Value value = 3;\n  \x7d\n\x7d\n" := by
  have hcompile : ((hostManifest.build.toOption.bind fun pkg =>
      (pkg.compile hostOptions).toOption).any fun schema =>
        schema.document.blocks.any fun b =>
          match b.body with
          | .oneof fields => decide
            (fields.map (·.name) = ["http_server", "http_server", "value"] ∧
              b.text =
                "message Server \x7b\n  oneof value \x7b\n" ++
                "    HTTPServer http_server = 1;\n    HttpServer http_server = 2;\n" ++
                "    Value value = 3;\n  \x7d\n\x7d\n")
          | _ => false) = true := by
    decide +kernel
  obtain ⟨schema, hschema, hblocks⟩ := (Option.any_eq_true _ _).1 hcompile
  obtain ⟨pkg, hpkg, hok⟩ := Option.bind_eq_some_iff.1 hschema
  obtain ⟨b, hb, hfields⟩ := List.any_eq_true.1 hblocks
  -- the block that was found is a oneof
  split at hfields
  · rename_i fields hbody
    obtain ⟨hnames, htext⟩ := of_decide_eq_true hfields
    exact ⟨pkg, schema, eq_ok_of_toOption hpkg, eq_ok_of_toOption hok, b, hb, fields, hbody, hnames,
      htext⟩
  · cases hfields

/-- The shapes of the host are told apart by their words. -/
theorem oneof_members_distinct_iff_host :
    ∃ pkg schema b fields n, hostManifest.build = .ok pkg ∧
      pkg.compile hostOptions = .ok schema ∧ b ∈ schema.document.blocks ∧
      b.body = .oneof fields ∧ fields.map (·.name) = ["circle", "text_box"] ∧
      fields = (pkg.implementationNames n).map memberField ∧
      (pkg.implementationNames n).Pairwise (· < ·) ∧
      (pkg.implementationNames n).Pairwise (fun a b => ¬ SameWords a b) ∧
      "Value" ∉ pkg.implementationNames n := by
  have hcompile : ((hostManifest.build.toOption.bind fun pkg =>
      (pkg.compile hostOptions).toOption).any fun schema =>
        schema.document.blocks.any fun b =>
          match b.body with
          | .oneof fields => decide (fields.map (·.name) = ["circle", "text_box"])
          | _ => false) = true := by
    decide +kernel
  obtain ⟨schema, hschema, hblocks⟩ := (Option.any_eq_true _ _).1 hcompile
  obtain ⟨pkg, hpkg, hok⟩ := Option.bind_eq_some_iff.1 hschema
  obtain ⟨b, hb, hfields⟩ := List.any_eq_true.1 hblocks
  split at hfields
  · rename_i fields hbody
    have hnames := of_decide_eq_true hfields
    have hbuild := eq_ok_of_toOption hpkg
    have hschema := eq_ok_of_toOption hok
    obtain ⟨n, _, hmembers, _, hascend, hwords, hvalue, _⟩ :=
      oneof_members_distinct_iff hschema hb hbody
    -- what was computed of the names settles both conditions
    rw [hnames] at hwords hvalue
    exact ⟨pkg, schema, b, fields, n, hbuild, hschema, hb, hbody, hnames, hmembers,
      hascend _ hbuild, hwords.1 (by decide), fun h => absurd (hvalue.2 (Or.inl h)) (by decide)⟩
  · cases hfields

end RpcSchema
