/-
  RpcSchema.Proofs.Proto.Closed
  ─────────────────────────────
  **EVERY NAME THAT A SCHEMA WRITES IS KNOWN.**

  A name in a schema is the one of a scalar, of the unconstrained value or
  of a block.  A definition that is named has been visited, so it has a
  block; a list or a map in an element position has been wrapped, under
  its own name; an implementation is a message; and no two blocks share a
  name.  Keys are read off when a map is converted, and are scalars or
  enums ever after.

  Main statement: `Package.document_closed`.
-/
import RpcSchema.Proofs.Conversion.Implementers
import RpcSchema.Proofs.Conversion.Placeholder
import RpcSchema.Proofs.Proto.Visited

namespace RpcSchema

/-! ## §1. The types that a document names. -/

namespace FieldType

/-- The types in the element positions of a field type. -/
def names : FieldType → List TypeName
  | .plain type | .optional type | .repeated type => [type]
  | .map _ value => [value]

/-- The types in the key position of a field type. -/
def keys : FieldType → List TypeName
  | .map key _ => [key]
  | .plain _ | .optional _ | .repeated _ => []

end FieldType

/-- The fields of a block, with those behind a oneof. -/
def BlockBody.fields : BlockBody → List ProtoField
  | .message fields | .oneof fields => fields
  | .enum _ => []

namespace Document

/-- The types of all fields of all blocks. -/
def fieldTypes (d : Document) : List FieldType :=
  d.blocks.flatMap fun b => b.body.fields.map (·.type)

/-- The types that are named in element positions: arguments and results of methods, and what the
types of fields are made of, keys aside. -/
def typeNames (d : Document) : List TypeName :=
  (d.methods.flatMap fun r => [r.request, r.response]) ++ d.fieldTypes.flatMap (·.names)

/-- The types that are named as keys of maps. -/
def keyNames (d : Document) : List TypeName :=
  d.fieldTypes.flatMap (·.keys)

/-- The name of a scalar, of the unconstrained value, or of exactly one block. -/
def Knows (d : Document) (t : TypeName) : Prop :=
  (∃ c, t = .scalar c) ∨ t = .any ∨
    ∃ name, t = .block name ∧ (d.blocks.map (·.name)).count name = 1

end Document

/-- The scalars that a key of a map can be. -/
def Scalar.keys : List Scalar :=
  [.string, .bool, .int32, .uint32, .int64, .uint64]

theorem Scalar.mem_keys_iff (c : Scalar) : c ∈ Scalar.keys ↔ c.isFloat = false := by
  cases c <;> decide

/-- The types of a field type are known, and its key is a scalar that a key can be. -/
def Document.Spells (d : Document) (t : FieldType) : Prop :=
  (∀ name ∈ t.names, d.Knows name) ∧ ∀ key ∈ t.keys, ∃ c ∈ Scalar.keys, key = .scalar c

/-- A field type with a single type is known if that is. -/
theorem Document.Knows.spells {d : Document} {t : FieldType} {name : TypeName}
    (h : d.Knows name) (hnames : t.names = [name]) (hkeys : t.keys = []) : d.Spells t := by
  constructor
  · intro other hother
    rw [hnames] at hother
    rw [List.mem_singleton.1 hother]
    exact h
  · intro key hkey
    rw [hkeys] at hkey
    exact absurd hkey List.not_mem_nil

/-! ## §2. Blocks. -/

namespace Schema

variable {schema : Schema} {a x id : EntryId}

/-- In a schema whose names are checked the name of a block is the one of exactly one block. -/
theorem knows_of_mem_blocks (h : schema.checkNames = .ok ()) {b : Block}
    (hb : b ∈ schema.document.blocks) : schema.document.Knows (.block b.name) := by
  refine Or.inr (Or.inr ⟨b.name, rfl, ?_⟩)
  refine List.count_eq_one_of_mem ?_ (List.mem_map.2 ⟨b, hb, rfl⟩)
  exact (map_name_blocks schema).nodup_iff.2 (nodup_blockNames h)

/-- A definition that is visited has a block. -/
theorem knows_of_definition (h : schema.checkNames = .ok ())
    (ha : a ∈ schema.pool.visitOrder schema.roots) {d : Definition}
    (hd : schema.pool.entry a = .definition d) : schema.document.Knows (.block d.name) := by
  have hmem : a ∈ schema.definitions := Pool.mem_reachable_iff.2 ⟨ha, by rw [hd]; rfl⟩
  have hblock : schema.pool.definitionBlock d ∈ schema.document.blocks := by
    refine Sequence.mem_sortBy.2 (List.mem_append_left _ ?_)
    exact List.mem_filterMap.2 ⟨a, hmem, by simp [Pool.entryBlock?, hd]⟩
  exact knows_of_mem_blocks h hblock

/-- What a block is made from. -/
theorem mem_blocks_cases {b : Block} (h : b ∈ schema.document.blocks) :
    (∃ a d, a ∈ schema.pool.visitOrder schema.roots ∧ schema.pool.entry a = .definition d ∧
      b = schema.pool.definitionBlock d) ∨
    ∃ w ∈ schema.pool.wrappers schema.definitions, b = schema.pool.wrapperBlock w := by
  rcases List.mem_append.1 (Sequence.mem_sortBy.1 h) with h | h
  · obtain ⟨a, ha, hb⟩ := List.mem_filterMap.1 h
    obtain ⟨hvisited, hdef⟩ := Pool.mem_reachable_iff.1 ha
    obtain ⟨d, hd⟩ := Entry.isDefinition_iff.1 hdef
    simp only [Pool.entryBlock?, hd, Option.some.injEq] at hb
    exact Or.inl ⟨a, d, hvisited, hd, hb.symm⟩
  · obtain ⟨w, hw, rfl⟩ := List.mem_map.1 h
    exact Or.inr ⟨w, hw, rfl⟩

/-! ## §3. Element positions. -/

/-- A type in an element position is known if it is visited and, being a container, has a
wrapper. -/
theorem knows_elementName (h : schema.checkNames = .ok ())
    (hx : schema.pool.element x ∈ schema.pool.visitOrder schema.roots)
    (hwrap : Pool.isContainerEntry (schema.pool.entry (schema.pool.element x)) = true →
      ∃ w ∈ schema.pool.wrappers schema.definitions,
        w.name = schema.pool.label (schema.pool.element x)) :
    schema.document.Knows (schema.pool.elementName x) := by
  -- a container is named after its wrapper, which has a block
  have hcontainer : Pool.isContainerEntry (schema.pool.entry (schema.pool.element x)) = true →
      schema.document.Knows (.block (schema.pool.label (schema.pool.element x))) := by
    intro hc
    obtain ⟨w, hw, hname⟩ := hwrap hc
    rw [← hname]
    exact knows_of_mem_blocks h (wrapperBlock_mem hw)
  unfold Pool.elementName
  dsimp only
  -- scalars and definitions name themselves
  cases hentry : schema.pool.entry (schema.pool.element x) with
  | scalar c => exact Or.inl ⟨c, rfl⟩
  | array of => exact hcontainer (by rw [hentry]; rfl)
  | map key value => exact hcontainer (by rw [hentry]; rfl)
  | definition d => exact knows_of_definition h hx hentry
  | any | optional | reference => exact Or.inr (Or.inl rfl)

end Schema

/-! ## §4. Keys. -/

/-- **The key of a map resolves to a key.**  It was checked when the map was converted. -/
theorem Source.Sound.isKey_resolved {s : Source} {p : Pool} {a key value : EntryId}
    (hp : s.Sound p) (ha : p.entry a = .map key value) : isKey (p.resolved key) = true := by
  obtain ⟨n, _, _, hn, hslot⟩ := hp.table a key value ha
  obtain ⟨z, hz, hkey⟩ : ∃ z, p.Leads key z ∧ isKey (p.entry z) = true := by
    cases hp.built n a hslot with
    | map _ ht _ _ hkey =>
      rw [ha] at ht
      cases ht
      exact hkey
    | _ => grind [Declares, IsInterface, isError_of_kind_ne_named]
  -- a key is no reference, so the chain ends in it
  have hself : p.resolve z = z := by
    apply Pool.resolve_of_ne_reference
    intro m he
    rw [he] at hkey
    cases hkey
  rw [Pool.resolved, Pool.resolve_eq_of_leads hp.flat hz, hself]
  exact hkey

/-- A key is written as a scalar that a key can be; an enum is keyed by its ordinals. -/
theorem Pool.exists_keyName {p : Pool} {key : EntryId}
    (h : Source.isKey (p.resolved key) = true) :
    ∃ c ∈ Scalar.keys, p.keyName key = .scalar c := by
  unfold keyName
  -- keys are scalars other than floats, and enums
  cases hres : p.resolved key with
  | scalar c =>
    rw [hres] at h
    have helem : p.element key = p.resolve key :=
      element_of_not_optional fun y hy => by
        rw [resolved, hy] at hres
        cases hres
    rw [resolved] at hres
    refine ⟨c, (Scalar.mem_keys_iff c).2 (by simpa [Source.isKey] using h), ?_⟩
    simp [elementName, helem, hres]
  | definition d =>
    rw [hres] at h
    cases d with
    | enum name members => exact ⟨.int32, by decide, rfl⟩
    | _ => cases h
  | _ =>
    rw [hres] at h
    cases h

namespace Schema

variable {schema : Schema} {s : Source} {x id : EntryId}

/-! ## §5. Fields. -/

/-- What stands in a container that is visited, and is a field type or wrapped, is known. -/
theorem spells_container (h : schema.checkNames = .ok ()) (hp : s.Sound schema.pool)
    (hid : Pool.IsOuter (schema.pool.typesOf schema.definitions)
      (schema.pool.wrappers schema.definitions) id)
    (hmem : schema.pool.element id ∈ schema.pool.visitOrder schema.roots) {t : FieldType}
    (ht : schema.pool.containerType? (schema.pool.entry (schema.pool.element id)) = some t) :
    schema.document.Spells t := by
  -- a container in its element position is nested, so it has a wrapper
  have hinner : ∀ x, Pool.elementPosition (schema.pool.entry (schema.pool.element id)) = some x →
      schema.document.Knows (schema.pool.elementName x) := by
    intro x hx
    refine knows_elementName h (Pool.inner_mem_visitOrder hmem hx) fun hc => ?_
    exact (schema.pool.wrappers_spec schema.definitions).2 id hid _
      (hp.nest_of_elementPosition hx hc)
  cases hentry : schema.pool.entry (schema.pool.element id) with
  | array of =>
    rw [hentry] at ht hinner
    obtain rfl := Option.some.inj ht
    exact (hinner of rfl).spells rfl rfl
  | map key value =>
    rw [hentry] at ht hinner
    obtain rfl := Option.some.inj ht
    refine ⟨fun name hname => ?_, fun k hk => ?_⟩
    · rw [List.mem_singleton.1 hname]
      exact hinner value rfl
    · rw [List.mem_singleton.1 hk]
      exact Pool.exists_keyName (hp.isKey_resolved hentry)
  | _ =>
    rw [hentry] at ht
    cases ht

/-- **The type of a field is known**, whether it is a field of a definition or of a wrapper. -/
theorem spells_fieldType (h : schema.checkNames = .ok ()) (hp : s.Sound schema.pool)
    (hid : Pool.IsOuter (schema.pool.typesOf schema.definitions)
      (schema.pool.wrappers schema.definitions) id)
    (hmem : schema.pool.resolve id ∈ schema.pool.visitOrder schema.roots) :
    schema.document.Spells (schema.pool.fieldType id) := by
  have helement := Pool.element_mem_visitOrder hmem
  by_cases hopt : ∃ y, schema.pool.entry (schema.pool.resolve id) = .optional y
  · -- an optional string
    obtain ⟨y, hy⟩ := hopt
    obtain ⟨rfl, _⟩ := hp.element_of_optional hy
    have hstring : schema.pool.element (.scalar .string) = .scalar .string := by
      rw [Pool.element_of_not_optional, hp.resolve_scalar]
      simp [hp.resolve_scalar, hp.base.scalar]
    have hfield : schema.pool.fieldType id = .optional (.scalar .string) := by
      simp [Pool.fieldType, Pool.resolved, hy, hstring, hp.base.scalar, Pool.containerType?,
        Pool.elementName]
    rw [hfield]
    exact Document.Knows.spells (Or.inl ⟨.string, rfl⟩) rfl rfl
  · have hnot : ∀ y, schema.pool.entry (schema.pool.resolve id) ≠ .optional y :=
      fun y hy => hopt ⟨y, hy⟩
    have hself : schema.pool.element id = schema.pool.resolve id :=
      Pool.element_of_not_optional hnot
    have hfield : schema.pool.fieldType id
        = (schema.pool.containerType? (schema.pool.entry (schema.pool.element id))).getD
            (.plain (schema.pool.elementName id)) := by
      rw [hself]
      unfold Pool.fieldType Pool.resolved
      split
      · rename_i y hy
        exact absurd hy (hnot y)
      · rfl
    rw [hfield]
    cases ht : schema.pool.containerType? (schema.pool.entry (schema.pool.element id)) with
    | some t => exact spells_container h hp hid helement ht
    | none =>
      -- no container, so it needs no wrapper
      refine Document.Knows.spells (knows_elementName h helement fun hc => ?_) rfl rfl
      rw [← Pool.isSome_containerType?, ht] at hc
      cases hc

/-- A message that is visited is known by its name. -/
theorem knows_message (h : schema.checkNames = .ok ())
    (hmem : schema.pool.resolve x ∈ schema.pool.visitOrder schema.roots) {name : String}
    {fields : List MessageField}
    (hx : schema.pool.resolved x = .definition (.message name fields)) :
    schema.document.Knows (schema.pool.elementName x) := by
  -- a message is its own element, so its block goes by its name
  have hself : schema.pool.element x = schema.pool.resolve x :=
    Pool.element_of_not_optional fun y hy => by
      rw [Pool.resolved, hy] at hx
      cases hx
  refine knows_elementName h (Pool.element_mem_visitOrder hmem) fun hc => ?_
  rw [hself, ← Pool.resolved, hx] at hc
  cases hc

end Schema

/-! ## §6. Compilations. -/

namespace Package

variable {pkg : Package} {o : CompileOptions} {schema : Schema} {a x : EntryId}

/-- The fields of the block of a definition are known. -/
theorem spells_definition (h : pkg.compile o = .ok schema)
    (ha : a ∈ schema.pool.visitOrder schema.roots) {d : Definition}
    (hd : schema.pool.entry a = .definition d) {f : ProtoField}
    (hf : f ∈ (schema.pool.definitionBody d).fields) : schema.document.Spells f.type := by
  obtain ⟨_, _, _, _, hcheck⟩ := extraction_of_compile h
  obtain ⟨_, hp, _, _⟩ := compile_run h
  cases d with
  | message name fields =>
    obtain ⟨g, hg, rfl⟩ := List.mem_map.1 hf
    have htype : g.type ∈ schema.pool.typesOf schema.definitions :=
      Pool.mem_typesOf (Pool.mem_reachable_iff.2 ⟨ha, by rw [hd]; rfl⟩) hd hg
    exact Schema.spells_fieldType hcheck hp.toSound (Or.inl htype)
      (Pool.fieldType_mem_visitOrder htype)
  | enum name members => exact absurd hf List.not_mem_nil
  | interface name ids =>
    cases ids with
    | nil =>
      -- without implementations the value is unconstrained
      rw [List.mem_singleton.1 hf]
      exact Document.Knows.spells (Or.inr (Or.inl rfl)) rfl rfl
    | cons x rest =>
      obtain ⟨y, hy, rfl⟩ := List.mem_map.1 hf
      obtain ⟨_, _, hmessage⟩ := implementation_is_message h hd hy
      have hvisited : schema.pool.resolve y ∈ schema.pool.visitOrder schema.roots :=
        Pool.visitOrder_closed ha (by rw [hd]; exact hy)
      exact (Schema.knows_message hcheck hvisited hmessage).spells rfl rfl

/-- The field of a wrapper is known. -/
theorem spells_wrapper (h : pkg.compile o = .ok schema) {w : Pool.Wrapper}
    (hw : w ∈ schema.pool.wrappers schema.definitions) :
    schema.document.Spells (schema.pool.fieldType w.container) := by
  obtain ⟨_, _, _, _, hcheck⟩ := extraction_of_compile h
  obtain ⟨_, hp, _, _⟩ := compile_run h
  obtain ⟨hvisited, hc⟩ := hp.toSound.container_mem_visitOrder hw
  exact Schema.spells_fieldType hcheck hp.toSound (Or.inr ⟨w, hw, rfl⟩)
    (by rwa [Pool.resolve_of_container hc])

/-- **Every field of every block is known.** -/
theorem spells_field (h : pkg.compile o = .ok schema) {t : FieldType}
    (ht : t ∈ schema.document.fieldTypes) : schema.document.Spells t := by
  obtain ⟨b, hb, htypes⟩ := List.mem_flatMap.1 ht
  obtain ⟨f, hf, rfl⟩ := List.mem_map.1 htypes
  rcases Schema.mem_blocks_cases hb with ⟨a, d, ha, hd, rfl⟩ | ⟨w, hw, rfl⟩
  · exact spells_definition h ha hd hf
  · rw [List.mem_singleton.1 hf]
    exact spells_wrapper h hw

/-- The request and the response of a method are known. -/
theorem knows_root (h : pkg.compile o = .ok schema) {root : EntryId}
    (hroot : root ∈ schema.roots) : schema.document.Knows (schema.pool.elementName root) := by
  obtain ⟨_, _, _, _, hcheck⟩ := extraction_of_compile h
  obtain ⟨_, ⟨name, fields, hentry, _⟩, _⟩ := (exists_root h).2 root hroot
  have hself : schema.pool.resolved root = .definition (.message name fields) := by
    rw [Pool.resolved, Source.resolve_eq_self hentry rfl, hentry]
  exact Schema.knows_message hcheck (Pool.root_mem_visitOrder hroot) hself

/-- **A schema that compiles is closed.**

Every type that is named for a method, a field of a message, an element of a list, a value of a
map, a member of a oneof or the field of a wrapper is a scalar, the unconstrained value, or the
name of exactly one block; and the keys of maps are scalars that a key can be. -/
theorem document_closed (h : pkg.compile o = .ok schema) :
    (∀ t ∈ schema.document.typeNames, (∃ c, t = .scalar c) ∨ t = .any ∨
      ∃ name, t = .block name ∧ (schema.document.blocks.map (·.name)).count name = 1) ∧
    ∀ k ∈ schema.document.keyNames,
      k.text ∈ ["string", "bool", "int32", "uint32", "int64", "uint64"] := by
  constructor
  · intro t ht
    rcases List.mem_append.1 ht with ht | ht
    · -- the argument or the result of a method, which is a root
      obtain ⟨r, hr, ht⟩ := List.mem_flatMap.1 ht
      obtain ⟨m, hm, rfl⟩ := List.mem_map.1 hr
      have hroots : m.request ∈ schema.roots ∧ m.response ∈ schema.roots := by
        constructor <;> exact List.mem_flatMap.2 ⟨m, hm, by simp⟩
      rcases List.mem_cons.1 ht with rfl | ht
      · exact knows_root h hroots.1
      · rw [List.mem_singleton.1 ht]
        exact knows_root h hroots.2
    · -- a type in a field of a block
      obtain ⟨f, hf, ht⟩ := List.mem_flatMap.1 ht
      exact (spells_field h hf).1 t ht
  · intro k hk
    obtain ⟨f, hf, hk⟩ := List.mem_flatMap.1 hk
    obtain ⟨c, hc, rfl⟩ := (spells_field h hf).2 k hk
    show c.name ∈ Scalar.keys.map Scalar.name
    exact List.mem_map.2 ⟨c, hc, rfl⟩

end Package

/-! ## §7. A map of lists and an interface. -/

/-- A method with lists by an enum, and an interface that a struct implements. -/
def boardManifest : Manifest where
  path := "example.com/board"
  name := none
  types :=
    [⟨"Color", .type "int", []⟩,
      ⟨"Shape", .interface [⟨"Area", [], [⟨none, "int"⟩]⟩] [], []⟩,
      ⟨"Square", .struct [⟨some "Side", "int"⟩], [⟨"Area", [], [⟨none, "int"⟩]⟩]⟩,
      ⟨"Board", .struct [],
        [⟨"Draw", [⟨some "cells", "map[Color][]string"⟩, ⟨some "shape", "Shape"⟩], []⟩]⟩]
  constants := [⟨"Red", "Color", "0"⟩]

/-- The options under which `boardManifest` is compiled. -/
def boardOptions : CompileOptions where
  package := "example.com/board"
  entrypoint := "Board"
  excluded := []
  fieldless := []
  service := none
  protoPackage := none
  options := .empty
  sortMethods := false

/-- The wrapper of the lists and the implementation of the interface have their blocks, and the
enum is keyed by its ordinals. -/
theorem document_closed_board :
    ∃ pkg schema, boardManifest.build = .ok pkg ∧ pkg.compile boardOptions = .ok schema ∧
      schema.document.keyNames = [.scalar .int32] ∧
      ∀ name ∈ ["StringList", "Square"], TypeName.block name ∈ schema.document.typeNames ∧
        (schema.document.blocks.map (·.name)).count name = 1 := by
  have hcompile : ((boardManifest.build.toOption.bind fun pkg =>
      (pkg.compile boardOptions).toOption).any fun schema =>
        decide (schema.document.keyNames = [.scalar .int32] ∧
          ∀ name ∈ ["StringList", "Square"],
            TypeName.block name ∈ schema.document.typeNames)) = true := by
    decide +kernel
  obtain ⟨schema, hschema, hfacts⟩ := (Option.any_eq_true _ _).1 hcompile
  obtain ⟨pkg, hpkg, hok⟩ := Option.bind_eq_some_iff.1 hschema
  obtain ⟨hkeys, hnames⟩ := of_decide_eq_true hfacts
  refine ⟨pkg, schema, eq_ok_of_toOption hpkg, eq_ok_of_toOption hok, hkeys,
    fun name hname => ⟨hnames name hname, ?_⟩⟩
  -- neither is a scalar nor the unconstrained value, so it is the name of a block
  rcases (Package.document_closed (eq_ok_of_toOption hok)).1 _ (hnames name hname) with
    ⟨c, hc⟩ | hc | ⟨other, hother, hcount⟩
  · cases hc
  · cases hc
  · cases hother
    exact hcount

end RpcSchema
