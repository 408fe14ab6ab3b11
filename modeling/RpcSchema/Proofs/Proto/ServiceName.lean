/-
  RpcSchema.Proofs.Proto.ServiceName
  ──────────────────────────────────
  **WHERE THE NAME OF A SERVICE IS TAKEN BY A BLOCK.**

  The service is a symbol of the schema text like its blocks are, but the
  check of names goes through the blocks alone.  The name of the service is
  not read before the schema is put together, so no compilation fails, or
  comes out differently, because of it.

  Blocks get their names from three places: from the methods, from the
  definitions that the signatures lead to, and from the containers nested in
  their fields.  A service clashes if its name comes from one of them.

  Main statement: `service_clash_iff`.
-/
import RpcSchema.Proofs.Conversion.Definitions
import RpcSchema.Proofs.Conversion.Placeholder
import RpcSchema.Proofs.Proto.NameOrder

namespace RpcSchema

/-! ## §1. The name of the service is not checked. -/

namespace Package

/-- **The name of the service decides nothing.**  Compiling under another name fails in the same
way, or comes to the same schema but for the name. -/
theorem compile_service (pkg : Package) (o : CompileOptions) (name : Option String) :
    pkg.compile { o with service := name } =
      (pkg.compile o).map fun schema => { schema with service := name.getD o.entrypoint } := by
  unfold compile
  dsimp only
  cases pkg.lookup? o.entrypoint with
  | none => rfl
  | some entrypoint =>
    -- neither the extraction nor the check reads the name
    have hcheck : ∀ methods pool, (schemaOf { o with service := name } methods pool).checkNames
        = (schemaOf o methods pool).checkNames := fun _ _ => rfl
    simp only [hcheck]
    rcases ((pkg.source o.fieldless).extractMethods entrypoint o.excluded).run Pool.start
      with ⟨_ | methods, pool⟩
    · rfl
    · dsimp only
      cases (schemaOf o methods pool).checkNames <;> rfl

end Package

/-! ## §2. What is visited. -/

namespace Package

variable {pkg : Package} {o : CompileOptions} {schema : Schema} {n : NativeId} {id a : EntryId}

/-- What follows from the messages of the methods is visited.  By induction on the way to it. -/
theorem resolve_mem_visitOrder (h : pkg.compile o = .ok schema) (hid : schema.Reaches id) :
    schema.pool.resolve id ∈ schema.pool.visitOrder schema.roots := by
  obtain ⟨_, hp, _, _⟩ := compile_run h
  obtain ⟨root, hroot, hpath⟩ := hid
  induction hpath with
  | refl => exact Pool.root_mem_visitOrder hroot
  | @tail a b _ hstep ih =>
    -- a step goes to a part, or through the slot of a reference
    rcases hstep with hpart | ⟨n, ha, hn⟩
    · rw [Pool.resolve_of_mem_parts hpart] at ih
      exact Pool.visitOrder_closed ih hpart
    · rw [← Pool.resolve_reference hp.flat ha hn]
      exact ih

/-- What a met native was converted to is visited. -/
theorem image_mem_visitOrder (h : pkg.compile o = .ok schema) (hn : pkg.Meets o n)
    (ha : (pkg.source o.fieldless).image schema.pool n = some a) :
    a ∈ schema.pool.visitOrder schema.roots := by
  obtain ⟨_, hp, _, _⟩ := compile_run h
  obtain ⟨x, hx, hst⟩ := reaches_of_meets h hn
  have himage := hp.image_of_stands hst
  rw [ha] at himage
  rw [Option.some.inj himage]
  exact resolve_mem_visitOrder h hx

/-- The parts of what a native was converted to are the text of an error, or what natives it leads
to were converted to. -/
theorem exists_meets_of_part (h : pkg.compile o = .ok schema) (hn : pkg.Meets o n)
    (ha : (pkg.source o.fieldless).image schema.pool n = some a) {x : EntryId}
    (hx : x ∈ (schema.pool.entry a).parts) :
    schema.pool.resolve x = .scalar .string ∨ ∃ m, pkg.Meets o m ∧
      (pkg.source o.fieldless).image schema.pool m = some (schema.pool.resolve x) := by
  obtain ⟨_, hp, _, _⟩ := compile_run h
  obtain ⟨y, _, hst⟩ := reaches_of_meets h hn
  have himage := hp.image_of_stands hst
  rw [ha] at himage
  obtain rfl := Option.some.inj himage
  by_cases hend : (pkg.source o.fieldless).Endless n
  · -- a placeholder has no parts
    have href := hp.resolved_endless hst hend
    unfold Pool.resolved at href
    cases he : schema.pool.entry (schema.pool.resolve y) with
    | reference m =>
      rw [he] at hx
      exact absurd hx List.not_mem_nil
    | _ =>
      rw [he] at href
      cases href
  · rcases (hp.clear meets_closed hn hend hst).2 x hx with rfl | ⟨m, hm, hmx⟩
    · exact Or.inl (hp.resolve_scalar _)
    · exact Or.inr ⟨m, hm, hp.image_of_stands hmx⟩

/-- **What is visited is a request or a response, the text of an error, or what a met native was
converted to.**  By induction on the search. -/
theorem exists_meets_of_visited (h : pkg.compile o = .ok schema)
    (ha : a ∈ schema.pool.visitOrder schema.roots) :
    a ∈ schema.roots ∨ a = .scalar .string ∨
      ∃ n, pkg.Meets o n ∧ (pkg.source o.fieldless).image schema.pool n = some a := by
  obtain ⟨_, hp, _, _⟩ := compile_run h
  obtain ⟨first, hfirst, hpath⟩ :=
    (Graph.mem_order_iff Pool.successors_of_not_mem_ids).1 ha
  induction hpath with
  | refl =>
    obtain ⟨root, hroot, rfl⟩ := List.mem_map.1 hfirst
    obtain ⟨_, ⟨name, fields, hentry, _⟩, _⟩ := (exists_root h).2 root hroot
    rw [Source.resolve_eq_self hentry rfl]
    exact Or.inl hroot
  | @tail b c hb hstep ih =>
    obtain ⟨x, hx, rfl⟩ := List.mem_map.1 hstep
    have hvisited : b ∈ schema.pool.visitOrder schema.roots :=
      (Graph.mem_order_iff Pool.successors_of_not_mem_ids).2 ⟨first, hfirst, hb⟩
    rcases ih hvisited with hroot | rfl | ⟨n, hn, himage⟩
    · -- a field of a request or a response
      obtain ⟨types, ⟨name, fields, hentry, hfields⟩, hmeets⟩ := (exists_root h).2 b hroot
      rw [hentry] at hx
      obtain ⟨n, hn, hst⟩ := exists_left_of_mem hfields hx
      exact Or.inr (Or.inr ⟨n, hmeets n hn, hp.image_of_stands hst⟩)
    · rw [hp.base.scalar] at hx
      exact absurd hx List.not_mem_nil
    · exact Or.inr (exists_meets_of_part h hn himage hx)

end Package

/-! ## §3. The messages of the methods. -/

namespace Source

open Conversion

variable {s : Source} {p q : Pool}

/-- The request and the response of a method are named after it. -/
def TitledAfter (p : Pool) (m : Method) (r : RpcMethod) : Prop :=
  (∃ fields, p.entry r.request = .definition (.message (m.name ++ "Request") fields)) ∧
    ∃ fields, p.entry r.response = .definition (.message (m.name ++ "Response") fields)

/-- Messages keep their names while the pool grows. -/
theorem TitledAfter.mono (hg : p.Grows q) {m : Method} {r : RpcMethod} (h : TitledAfter p m r) :
    TitledAfter q m r := by
  obtain ⟨⟨request, hrequest⟩, response, hresponse⟩ := h
  refine ⟨⟨request, ?_⟩, response, ?_⟩
  · rw [hg.entry_of_ne_any (by simp [hrequest]), hrequest]
  · rw [hg.entry_of_ne_any (by simp [hresponse]), hresponse]

theorem titledAfter_of_extractMethod {m : Method} {r : RpcMethod}
    (h : (s.extractMethod m).Yields p r q) : TitledAfter q m r := by
  obtain ⟨request, p₁, response, p₂, _, _, rfl, rfl⟩ := yields_extractMethod h
  exact ⟨⟨request, Pool.entry_message_push p₂ _ _ _⟩, response, Pool.entry_push _ _⟩

theorem titledAfter_of_extractMethods {ms : List Method} {rs : List RpcMethod}
    (h : (ms.mapM s.extractMethod).Yields p rs q) : List.Forall₂ (TitledAfter q) ms rs := by
  induction ms generalizing p rs with
  | nil =>
    obtain ⟨rfl, rfl⟩ := yields_mapM_nil.1 h
    exact List.Forall₂.nil
  | cons m ms ih =>
    obtain ⟨r, p₁, rest, hr, hrest, rfl⟩ := yields_mapM_cons.1 h
    have hg : p₁.Grows q := (requests_apart hrest).1
    exact List.Forall₂.cons ((titledAfter_of_extractMethod hr).mono hg) (ih hrest)

end Source

/-! ## §4. The names of the blocks. -/

namespace Package

variable {pkg : Package} {o : CompileOptions} {schema : Schema} {name : String}

/-- Where a block of a schema gets its name: from a method, from the definition that a met native
was converted to, or from a nested container. -/
inductive Names (pkg : Package) (o : CompileOptions) (schema : Schema) (name : String) : Prop
  | request {m : Method} (hm : m ∈ pkg.serviceMethods o) (hname : m.name ++ "Request" = name)
  | response {m : Method} (hm : m ∈ pkg.serviceMethods o) (hname : m.name ++ "Response" = name)
  | definition {n : NativeId} {a : EntryId} {d : Definition} (hn : pkg.Meets o n)
      (ha : (pkg.source o.fieldless).image schema.pool n = some a)
      (hd : schema.pool.entry a = .definition d) (hname : d.name = name)
  | wrapper {c : EntryId} (hc : schema.Nested c) (hname : schema.pool.label c = name)

/-- The methods of a schema are named after those of the service, in some order. -/
theorem titledAfter_of_compile (h : pkg.compile o = .ok schema) :
    ∃ methods, List.Forall₂ (Source.TitledAfter schema.pool) (pkg.serviceMethods o) methods ∧
      ∀ r, r ∈ schema.methods ↔ r ∈ methods := by
  obtain ⟨methods, pool, hrun, rfl, _⟩ := extraction_of_compile h
  exact ⟨methods, Source.titledAfter_of_extractMethods hrun, mem_ordered_iff o methods⟩

/-- A block has the name of a definition that is reached, or of a wrapper. -/
theorem exists_block_iff (schema : Schema) (name : String) :
    (∃ b ∈ schema.document.blocks, b.name = name) ↔
      (∃ a ∈ schema.pool.visitOrder schema.roots, ∃ d,
        schema.pool.entry a = .definition d ∧ d.name = name) ∨
      ∃ w ∈ schema.pool.wrappers schema.definitions, w.name = name := by
  rw [← List.mem_map, (Schema.map_name_blocks schema).mem_iff]
  unfold Schema.blockNames
  rw [List.mem_append, List.mem_filterMap, List.mem_map]
  -- wrappers agree literally; definitions are looked up by their name
  apply or_congr_left
  constructor
  · intro hname
    obtain ⟨a, ha, hname⟩ := hname
    obtain ⟨hvisited, hdef⟩ := Pool.mem_reachable_iff.1 ha
    obtain ⟨d, hd⟩ := Entry.isDefinition_iff.1 hdef
    refine ⟨a, hvisited, d, hd, ?_⟩
    rw [Pool.nameOf?, Pool.resolved, Source.resolve_eq_self hd rfl, hd] at hname
    exact Option.some.inj hname
  · intro hname
    obtain ⟨a, hvisited, d, hd, rfl⟩ := hname
    refine ⟨a, Pool.mem_reachable_iff.2 ⟨hvisited, by rw [hd]; rfl⟩, ?_⟩
    rw [Pool.nameOf?, Pool.resolved, Source.resolve_eq_self hd rfl, hd]
    rfl

/-- The names of wrappers are those of nested containers. -/
theorem exists_wrapper_iff (schema : Schema) (name : String) :
    (∃ w ∈ schema.pool.wrappers schema.definitions, w.name = name) ↔
      ∃ c, schema.Nested c ∧ schema.pool.label c = name := by
  obtain ⟨hg, hcovers⟩ := schema.pool.wrappers_spec schema.definitions
  constructor
  · intro hname
    obtain ⟨w, hw, rfl⟩ := hname
    exact ⟨w.container, hg.nested w hw, (hg.named w hw).symm⟩
  · intro hname
    obtain ⟨c, ⟨id, hid, hnest⟩, rfl⟩ := hname
    exact hcovers id hid c hnest

/-- **Where the names of the blocks come from.** -/
theorem exists_block_iff_names (h : pkg.compile o = .ok schema) :
    (∃ b ∈ schema.document.blocks, b.name = name) ↔ pkg.Names o schema name := by
  obtain ⟨rs, hserves, hmem⟩ := titledAfter_of_compile h
  obtain ⟨_, hp, _, _⟩ := compile_run h
  rw [exists_block_iff, exists_wrapper_iff]
  constructor
  · intro hname
    rcases hname with ⟨a, hvisited, d, hd, hname⟩ | ⟨c, hc, hname⟩
    · rcases exists_meets_of_visited h hvisited with hroot | rfl | ⟨n, hn, himage⟩
      · -- a message of a method
        obtain ⟨r, hr, hroot⟩ := List.mem_flatMap.1 hroot
        obtain ⟨m, hm, ⟨fields, hrequest⟩, fields', hresponse⟩ :=
          exists_left_of_mem hserves ((hmem r).1 hr)
        rcases List.mem_cons.1 hroot with rfl | hroot
        · obtain rfl := Entry.definition.inj (hd.symm.trans hrequest)
          exact .request hm hname
        · rw [List.mem_singleton.1 hroot] at hd
          obtain rfl := Entry.definition.inj (hd.symm.trans hresponse)
          exact .response hm hname
      · rw [hp.base.scalar] at hd
        cases hd
      · exact .definition hn himage hd hname
    · exact .wrapper hc hname
  · intro hname
    -- the messages of a method are roots of the search
    have hroots : ∀ m ∈ pkg.serviceMethods o, ∃ r ∈ schema.methods,
        Source.TitledAfter schema.pool m r := by
      intro m hm
      obtain ⟨r, hr, htitled⟩ := exists_right_of_mem hserves hm
      exact ⟨r, (hmem r).2 hr, htitled⟩
    have hvisited : ∀ root ∈ schema.roots, ∀ d, schema.pool.entry root = .definition d →
        root ∈ schema.pool.visitOrder schema.roots := by
      intro root hroot d hd
      have hvisit := Pool.root_mem_visitOrder (p := schema.pool) hroot
      rwa [Source.resolve_eq_self hd rfl] at hvisit
    cases hname with
    | request hm hname =>
      obtain ⟨r, hr, ⟨fields, hrequest⟩, _⟩ := hroots _ hm
      have hroot : r.request ∈ schema.roots := List.mem_flatMap.2 ⟨r, hr, by simp⟩
      exact Or.inl ⟨r.request, hvisited _ hroot _ hrequest, _, hrequest, hname⟩
    | response hm hname =>
      obtain ⟨r, hr, _, fields, hresponse⟩ := hroots _ hm
      have hroot : r.response ∈ schema.roots := List.mem_flatMap.2 ⟨r, hr, by simp⟩
      exact Or.inl ⟨r.response, hvisited _ hroot _ hresponse, _, hresponse, hname⟩
    | definition hn ha hd hname => exact Or.inl ⟨_, image_mem_visitOrder h hn ha, _, hd, hname⟩
    | wrapper hc hname => exact Or.inr ⟨_, hc, hname⟩

/-- **A struct, an interface that asks for something and an enumeration give their names.** -/
theorem Names.nominal (h : pkg.compile o = .ok schema) {n : NativeId} {decl : NamedType}
    (hn : pkg.Meets o n) (hnominal : (pkg.source o.fieldless).Nominal n)
    (herror : pkg.types.isError n = false) (hdecl : pkg.types.kind n = .named decl) :
    pkg.Names o schema decl.name := by
  obtain ⟨_, hp, _, _⟩ := compile_run h
  -- what the methods meet has been converted
  obtain ⟨x, _, hst⟩ := reaches_of_meets h hn
  have hb : ¬ (pkg.source o.fieldless).IsBasic n := by
    rintro ⟨kind, hk⟩
    cases hdecl.symm.trans hk
  obtain ⟨u, hu, _⟩ := hp.exists_result hb hst
  have himage := Source.image_of_done hb hu
  have hfaithful := hp.faithful (hp.built n u hu)
  -- each of the three shapes keeps the name of its declaration
  cases hnominal with
  | struct hn' hu' =>
    obtain rfl := NativeKind.named.inj (hdecl.symm.trans hn')
    obtain ⟨fields, hd, _⟩ := hfaithful.struct _ _ ⟨hn', herror, hu'⟩
    exact .definition hn himage hd rfl
  | interface hn' hu' hasks =>
    obtain rfl := NativeKind.named.inj (hdecl.symm.trans hn')
    obtain ⟨ids, hd, _⟩ := hfaithful.interface _ _ ⟨hn', herror, hu'⟩ hasks
    exact .definition hn himage hd rfl
  | enum hn' hu' he =>
    obtain rfl := NativeKind.named.inj (hdecl.symm.trans hn')
    have hd := hfaithful.enum _ _ _ ⟨hn', herror, hu'⟩ he
    exact .definition hn himage hd (Source.name_of_lookup_enums he hn')

/-- **When a service shares its name with a block.**

In a schema that compiles no two blocks share a name.  One of them has the name of the service
exactly if a method, the definition of a native that the signatures lead to, or a nested container
gives that name; a struct, an interface that asks for something or an enumeration that is met
under the name of the service does, the entrypoint included.  The check sees none of this: under
every other name of the service the package compiles to the same schema, so every block there is
can share its name with the service. -/
theorem service_clash_iff (h : pkg.compile o = .ok schema) :
    (schema.document.blocks.map (·.name)).Nodup ∧
    ((∃ b ∈ schema.document.blocks, b.name = schema.document.service) ↔
      pkg.Names o schema schema.service) ∧
    (∀ n decl, pkg.Meets o n → (pkg.source o.fieldless).Nominal n →
      pkg.types.isError n = false → pkg.types.kind n = .named decl →
      decl.name = schema.service →
      ∃ b ∈ schema.document.blocks, b.name = schema.document.service) ∧
    ∀ service : String,
      pkg.compile { o with service := some service } = .ok { schema with service := service } ∧
      ((∃ b ∈ ({ schema with service := service } : Schema).document.blocks, b.name = service) ↔
        pkg.Names o schema service) := by
  obtain ⟨_, _, _, _, hcheck⟩ := extraction_of_compile h
  refine ⟨(Schema.map_name_blocks schema).nodup_iff.2 (Schema.nodup_blockNames hcheck),
    exists_block_iff_names h, ?_, fun service => ⟨?_, exists_block_iff_names h⟩⟩
  · intro n decl hn hnominal herror hdecl hname
    have hnames := Names.nominal h hn hnominal herror hdecl
    rw [hname] at hnames
    exact (exists_block_iff_names h).2 hnames
  · -- the service name is written last and checked against nothing
    rw [compile_service, h]
    rfl

end Package

/-! ## §5. A service that returns itself. -/

/-- A struct whose only method returns it. -/
def chatManifest : Manifest where
  path := "example.com/chat"
  name := none
  types :=
    [⟨"Chat", .struct [⟨some "Topic", "string"⟩], [⟨"Fork", [], [⟨none, "*Chat"⟩]⟩]⟩]
  constants := []

/-- The package of `chatManifest`. -/
def chatPackage : Package where
  path := "example.com/chat"
  name := "chat"
  types := ⟨Universe.predeclared.kinds ++
    #[.named ⟨"Chat", some "example.com/chat", .entry 22,
        [⟨"Fork", [], [⟨none, .entry 23⟩], false⟩]⟩,
      .struct [⟨"Topic", .basic .string, false⟩], .pointer (.entry 21)]⟩
  declared := [("Chat", .entry 21)]
  constants := []

/-- The options under which `chatPackage` is compiled. -/
def chatOptions : CompileOptions where
  package := "example.com/chat"
  entrypoint := "Chat"
  excluded := []
  fieldless := []
  service := none
  protoPackage := none
  options := .empty
  sortMethods := false

/-- The service and a message of the text have one name. -/
theorem chat_shares_name :
    chatManifest.build = .ok chatPackage ∧
      ∃ schema, chatPackage.compile chatOptions = .ok schema ∧
        (∃ b ∈ schema.document.blocks, b.name = schema.document.service) ∧
        schema.text =
          "syntax = \"proto3\";\n\nimport \"google/protobuf/any.proto\";\n\n" ++
          "service Chat \x7b\n  rpc Fork(ForkRequest) returns (ForkResponse);\n\x7d\n\n" ++
          "message Chat \x7b\n  string Topic = 1;\n\x7d\n\n" ++
          "message ForkRequest \x7b\x7d\n\n" ++
          "message ForkResponse \x7b\n  Chat Field1 = 1;\n\x7d\n" := by
  have hbuild : chatManifest.build.toOption = some chatPackage := by
    decide +kernel
  have hcompile : ((chatPackage.compile chatOptions).toOption.any fun schema =>
      decide ((∃ b ∈ schema.document.blocks, b.name = schema.document.service) ∧
        schema.text =
          "syntax = \"proto3\";\n\nimport \"google/protobuf/any.proto\";\n\n" ++
          "service Chat \x7b\n  rpc Fork(ForkRequest) returns (ForkResponse);\n\x7d\n\n" ++
          "message Chat \x7b\n  string Topic = 1;\n\x7d\n\n" ++
          "message ForkRequest \x7b\x7d\n\n" ++
          "message ForkResponse \x7b\n  Chat Field1 = 1;\n\x7d\n")) = true := by
    decide +kernel
  obtain ⟨schema, hschema, hfacts⟩ := (Option.any_eq_true _ _).1 hcompile
  exact ⟨eq_ok_of_toOption hbuild, schema, eq_ok_of_toOption hschema, of_decide_eq_true hfacts⟩

/-- The entrypoint is met, so its name is taken; under a name of its own the service is apart. -/
theorem service_clash_iff_chat :
    ∃ schema, chatPackage.compile chatOptions = .ok schema ∧
      (∃ b ∈ schema.document.blocks, b.name = schema.document.service) ∧
      chatPackage.compile { chatOptions with service := some "Rooms" }
        = .ok { schema with service := "Rooms" } ∧
      ¬ chatPackage.Names chatOptions schema "Rooms" := by
  have hcompile : ((chatPackage.compile chatOptions).toOption.any fun schema : Schema =>
      decide (schema.service = "Chat" ∧
        ¬ ∃ b ∈ ({ schema with service := "Rooms" } : Schema).document.blocks,
          b.name = "Rooms")) = true := by
    decide +kernel
  obtain ⟨schema, hschema, hfacts⟩ := (Option.any_eq_true _ _).1 hcompile
  obtain ⟨hname, hrooms⟩ := of_decide_eq_true hfacts
  have hok := eq_ok_of_toOption hschema
  -- the result of the method is the struct itself
  have hmeets : chatPackage.Meets chatOptions (.entry 21) :=
    ⟨⟨"Fork", [], [⟨none, .entry 23⟩], false⟩, by decide +kernel, ⟨none, .entry 23⟩, by decide,
      .single (by decide +kernel)⟩
  have hclash := Package.service_clash_iff hok
  obtain ⟨hother, hiff⟩ := hclash.2.2.2 "Rooms"
  refine ⟨schema, hok, ?_, hother, fun hnames => hrooms (hiff.2 hnames)⟩
  exact hclash.2.2.1 _ _ hmeets (.struct rfl rfl) (by decide +kernel) rfl hname.symm

end RpcSchema
