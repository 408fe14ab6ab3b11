/-
  RpcSchema.Proofs.Proto.WrapperNames
  ───────────────────────────────────
  **WHAT THE NAME OF A WRAPPER STANDS FOR.**

  When a schema compiles its blocks have different names, so the block
  that has the name of a nested container is a wrapper, and the only one.
  But the wrapper holds the container that was met first under that name,
  and containers of one name may be written differently: `[]string` and
  `[]String`, where `String` is a message, are both named `StringList`.

  Main statements: `wrapper_names_iff` and `text_fieldType_list_iff`.
-/
import RpcSchema.Manifest.Build
import RpcSchema.Proofs.Conversion.Extraction
import RpcSchema.Proofs.Pool.Wrapping
import RpcSchema.Proto.Document

namespace RpcSchema

/-! ## §1. Blocks and their names. -/

namespace Schema

variable {schema : Schema} {c : EntryId}

/-- The names of the blocks of definitions. -/
theorem map_name_entryBlock {p : Pool} {definitions : List EntryId}
    (h : ∀ d ∈ definitions, (p.entry d).isDefinition = true) :
    (definitions.filterMap p.entryBlock?).map (·.name) = definitions.filterMap p.nameOf? := by
  rw [List.map_filterMap]
  refine List.filterMap_congr fun d hd => ?_
  obtain ⟨e, he⟩ := Entry.isDefinition_iff.1 (h d hd)
  have hres : p.resolve d = d := Pool.resolve_of_not_reference (by rw [he]; rfl)
  simp only [Pool.entryBlock?, Pool.nameOf?, Pool.resolved, hres, he, Entry.name?,
    Pool.definitionBlock, Option.map_some]

/-- **The names that are checked are those of the blocks.** -/
theorem map_name_blocks (schema : Schema) :
    (schema.document.blocks.map (·.name)).Perm schema.blockNames := by
  have hsorted := (Sequence.sortBy_perm (·.name : Block → String)
    (schema.definitions.filterMap schema.pool.entryBlock?
      ++ (schema.pool.wrappers schema.definitions).map schema.pool.wrapperBlock)).map
    (·.name : Block → String)
  refine hsorted.trans (List.Perm.of_eq ?_)
  -- every definition gives a block, under its own name
  have hnames : (schema.definitions.filterMap schema.pool.entryBlock?).map (·.name)
      = schema.definitions.filterMap schema.pool.nameOf? :=
    map_name_entryBlock fun d hd => Pool.isDefinition_of_mem_reachable hd
  rw [List.map_append, hnames, List.map_map]
  rfl

/-- The check makes sure that names of blocks differ. -/
theorem nodup_blockNames (h : schema.checkNames = .ok ()) : schema.blockNames.Nodup := by
  have hnone : firstRepeated [] schema.blockNames = none := by
    unfold checkNames at h
    split at h
    · cases h
    · assumption
  exact (firstRepeated_eq_none_iff.1 hnone).1

/-- In a schema whose names are checked a block is known by its name. -/
theorem block_eq_of_name (h : schema.checkNames = .ok ()) {a b : Block}
    (ha : a ∈ schema.document.blocks) (hb : b ∈ schema.document.blocks) (hab : a.name = b.name) :
    a = b :=
  List.inj_on_of_nodup_map ((map_name_blocks schema).nodup_iff.2 (nodup_blockNames h)) ha hb hab

theorem wrapperBlock_mem {w : Pool.Wrapper} (hw : w ∈ schema.pool.wrappers schema.definitions) :
    schema.pool.wrapperBlock w ∈ schema.document.blocks :=
  Sequence.mem_sortBy.2 (List.mem_append_right _ (List.mem_map.2 ⟨w, hw, rfl⟩))

/-! ## §2. Nested containers. -/

/-- A list or a map in the element position of a field of a message or of a wrapper. -/
def Nested (schema : Schema) (c : EntryId) : Prop :=
  ∃ id, Pool.IsOuter (schema.pool.typesOf schema.definitions)
      (schema.pool.wrappers schema.definitions) id ∧ schema.pool.nest? id = some c

/-- There is a block that has the name of the container, and every such block is a wrapper whose
only field has the type of the container. -/
def Represents (schema : Schema) (c : EntryId) : Prop :=
  (∃ b ∈ schema.document.blocks, b.name = schema.pool.label c) ∧
    ∀ b ∈ schema.document.blocks, b.name = schema.pool.label c →
      ∃ w ∈ schema.pool.wrappers schema.definitions, b = schema.pool.wrapperBlock w ∧
        (schema.pool.fieldType w.container).text = (schema.pool.fieldType c).text

/-- **The block that has the name of a nested container is one wrapper.** -/
theorem exists_wrapper (h : schema.checkNames = .ok ()) (hc : schema.Nested c) :
    ∃ w ∈ schema.pool.wrappers schema.definitions,
      schema.Nested w.container ∧ schema.pool.label w.container = schema.pool.label c ∧
      ∀ b, b ∈ schema.document.blocks ∧ b.name = schema.pool.label c ↔
        b = schema.pool.wrapperBlock w := by
  obtain ⟨hg, hcovers⟩ := schema.pool.wrappers_spec schema.definitions
  obtain ⟨id, hid, hnest⟩ := hc
  obtain ⟨w, hw, hname⟩ := hcovers id hid c hnest
  have hblock := wrapperBlock_mem hw
  refine ⟨w, hw, hg.nested w hw, by rw [← hg.named w hw, hname], fun b => ?_⟩
  constructor
  · -- block names are distinct, so the label picks out one block
    rintro ⟨hb, hbc⟩
    exact block_eq_of_name h hb hblock (hbc.trans hname.symm)
  · rintro rfl
    exact ⟨hblock, hname⟩

end Schema

/-! ## §3. Compilations. -/

/-- **When a name stands for one container.**

In a schema that compiles a nested container finds one block under its name, a wrapper of a
container nested under that name.  It has the type of every container of the name exactly if all
of them are written in one way. -/
theorem Package.wrapper_names_iff {pkg : Package} {o : CompileOptions} {schema : Schema}
    (h : pkg.compile o = .ok schema) :
    (∀ c, schema.Nested c → ∃ w ∈ schema.pool.wrappers schema.definitions,
      schema.Nested w.container ∧ schema.pool.label w.container = schema.pool.label c ∧
      ∀ b, b ∈ schema.document.blocks ∧ b.name = schema.pool.label c ↔
        b = schema.pool.wrapperBlock w) ∧
    ((∀ c, schema.Nested c → schema.Represents c) ↔
      ∀ c c', schema.Nested c → schema.Nested c' →
        schema.pool.label c = schema.pool.label c' →
        (schema.pool.fieldType c).text = (schema.pool.fieldType c').text) := by
  obtain ⟨_, _, _, _, hcheck⟩ := extraction_of_compile h
  refine ⟨fun c hc => Schema.exists_wrapper hcheck hc, fun hrep c c' hc hc' hlabel => ?_,
    fun hsame c hc => ?_⟩
  · -- both have the type of the one block of their name
    obtain ⟨⟨b, hb, hbc⟩, hall⟩ := hrep c hc
    obtain ⟨w, _, rfl, hw⟩ := hall b hb hbc
    obtain ⟨w', _, hblock, hw'⟩ := (hrep c' hc').2 _ hb (hbc.trans hlabel)
    have hfield : schema.pool.fieldType w.container = schema.pool.fieldType w'.container ∧
        schema.pool.wrapperField w = schema.pool.wrapperField w' := by
      simpa [Pool.wrapperBlock] using congrArg Block.body hblock
    rw [← hw, ← hw', hfield.1]
  · -- the block of the name holds a container of the name
    obtain ⟨w, hw, hnested, hlabel, hblocks⟩ := Schema.exists_wrapper hcheck hc
    obtain ⟨hmem, hname⟩ := (hblocks _).2 rfl
    refine ⟨⟨_, hmem, hname⟩, fun b hb hbc => ⟨w, hw, (hblocks b).1 ⟨hb, hbc⟩, ?_⟩⟩
    exact hsame w.container c hnested hc hlabel

/-! ## §4. Lists of one name. -/

/-- Whether a type is written as the name of a block. -/
def TypeName.isBlock : TypeName → Bool
  | .block _ => true
  | _ => false

namespace Pool

variable {p : Pool} {x y c c' : EntryId}

/-- A list or a map is no reference. -/
theorem resolve_of_container (h : isContainerEntry (p.entry x) = true) : p.resolve x = x := by
  apply resolve_of_ne_reference
  intro n hx
  rw [hx] at h
  cases h

/-- A list or a map is its own element position. -/
theorem element_of_container (h : isContainerEntry (p.entry x) = true) : p.element x = x := by
  unfold element
  rw [resolve_of_container h]
  unfold stripWithin
  split
  · rename_i hx
    rw [hx] at h
    cases h
  · rfl

theorem label_element (h : isContainerEntry (p.entry (p.element x)) = true) :
    p.label (p.element x) = p.label x := by
  unfold label labelWithin
  rw [element_of_container h]

/-- A type is written as the block it is named after, or is a scalar or the unconstrained
value. -/
theorem elementName_cases (p : Pool) (x : EntryId) :
    p.elementName x = .block (p.label x) ∨
      (∃ s, p.elementName x = .scalar s ∧ p.label x = s.label) ∨
      p.elementName x = .any ∧ (p.label x = "Any" ∨ p.label x = "") := by
  cases hx : p.entry (p.element x) with
  -- a container is written by its label, which its element position shares
  | array of =>
    have hself := label_element (p := p) (x := x) (by rw [hx]; rfl)
    exact Or.inl (by simp [elementName, hx, hself])
  | map key value =>
    have hself := label_element (p := p) (x := x) (by rw [hx]; rfl)
    exact Or.inl (by simp [elementName, hx, hself])
  | definition d => exact Or.inl (by simp [elementName, label, labelWithin, hx])
  | scalar s => exact Or.inr (Or.inl ⟨s, by simp [elementName, label, labelWithin, hx]⟩)
  | _ => exact Or.inr (Or.inr (by simp [elementName, label, labelWithin, hx]))

/-- A block that goes by the name of a scalar or of the unconstrained value is written
differently. -/
theorem text_ne_of_isBlock (hlabel : p.label x = p.label y)
    (hx : (p.elementName x).isBlock = true) (hy : (p.elementName y).isBlock = false) :
    (p.elementName x).text ≠ (p.elementName y).text := by
  -- a block is written by its name, which is the label they share
  have hblock : (p.elementName x).text = p.label y := by
    rcases p.elementName_cases x with h | ⟨s, h, _⟩ | ⟨h, _⟩
    · rw [h, ← hlabel]
      rfl
    · rw [h] at hx
      cases hx
    · rw [h] at hx
      cases hx
  rw [hblock]
  -- a scalar or the type that holds anything is never written as its label
  rcases p.elementName_cases y with h | ⟨s, h, hs⟩ | ⟨h, hs | hs⟩
  · rw [h] at hy
    cases hy
  · rw [h, hs]
    cases s <;> decide
  · rw [h, hs]
    decide
  · rw [h, hs]
    decide

/-- Types of one name that are both blocks, or both none, are the same. -/
theorem elementName_eq_of_isBlock (hlabel : p.label x = p.label y)
    (h : (p.elementName x).isBlock = (p.elementName y).isBlock) :
    p.elementName x = p.elementName y := by
  -- no scalar goes by the name of the unconstrained value
  have hany : ∀ s : Scalar, s.label ≠ "Any" ∧ s.label ≠ "" := by
    intro s
    cases s <;> decide
  have hinj : ∀ s t : Scalar, s.label = t.label → s = t := by
    intro s t
    cases s <;> cases t <;> decide
  rcases p.elementName_cases x with hx | ⟨s, hx, hs⟩ | ⟨hx, hs⟩ <;>
    rcases p.elementName_cases y with hy | ⟨t, hy, ht⟩ | ⟨hy, ht⟩ <;>
    rw [hx, hy] at h ⊢
  · rw [hlabel]
  · cases h
  · cases h
  · cases h
  · rw [hinj s t (by rw [← hs, ← ht, hlabel])]
  · rw [← hlabel, hs] at ht
    exact absurd ht (not_or.2 (hany s))
  · cases h
  · rw [hlabel, ht] at hs
    exact absurd hs (not_or.2 (hany t))

/-- **Types of one name are written alike exactly if both or none of them is a block.** -/
theorem text_elementName_eq_iff (hlabel : p.label x = p.label y) :
    (p.elementName x).text = (p.elementName y).text ↔
      (p.elementName x).isBlock = (p.elementName y).isBlock := by
  refine ⟨fun htext => ?_, fun h => by rw [elementName_eq_of_isBlock hlabel h]⟩
  -- with one label, the texts differ only if one of the two is no block
  cases hx : (p.elementName x).isBlock with
  | true =>
    cases hy : (p.elementName y).isBlock with
    | true => rfl
    | false => exact absurd htext (text_ne_of_isBlock hlabel hx hy)
  | false =>
    cases hy : (p.elementName y).isBlock with
    | true => exact absurd htext.symm (text_ne_of_isBlock hlabel.symm hy hx)
    | false => rfl

/-- **Which lists of one name are written alike.** -/
theorem text_fieldType_list_iff (hc : p.entry c = .array x) (hc' : p.entry c' = .array y)
    (hlabel : p.label x = p.label y) :
    (p.fieldType c).text = (p.fieldType c').text ↔
      (p.elementName x).isBlock = (p.elementName y).isBlock := by
  have hfield : ∀ {a b}, p.entry a = .array b →
      (p.fieldType a).text = "repeated " ++ (p.elementName b).text := by
    intro a b ha
    have hres : p.resolve a = a := resolve_of_not_reference (by rw [ha]; rfl)
    simp only [fieldType, resolved, hres, ha, containerType?, Option.getD_some, FieldType.text]
  rw [hfield hc, hfield hc', String.append_right_inj, text_elementName_eq_iff hlabel]

end Pool

/-! ## §5. Two containers of one name. -/

/-- A message named like a scalar, and lists of lists of both. -/
def shelfManifest : Manifest where
  path := "example.com/shelf"
  name := none
  types :=
    [⟨"String", .struct [], []⟩,
      ⟨"Shelf", .struct [],
        [⟨"Sort", [⟨some "plain", "[][]string"⟩, ⟨some "boxed", "[][]String"⟩], []⟩,
          ⟨"Fill", [⟨some "plain", "[][]string"⟩], []⟩]⟩]
  constants := []

/-- The package of `shelfManifest`. -/
def shelfPackage : Package where
  path := "example.com/shelf"
  name := "shelf"
  types := ⟨Universe.predeclared.kinds ++
    #[.named ⟨"String", some "example.com/shelf", .entry 23, []⟩,
      .named ⟨"Shelf", some "example.com/shelf", .entry 23,
        [⟨"Sort", [⟨some "plain", .entry 25⟩, ⟨some "boxed", .entry 27⟩], [], false⟩,
          ⟨"Fill", [⟨some "plain", .entry 25⟩], [], false⟩]⟩,
      .struct [], .slice (.basic .string), .slice (.entry 24), .slice (.entry 21),
      .slice (.entry 26)]⟩
  declared := [("String", .entry 21), ("Shelf", .entry 22)]
  constants := []

/-- The options under which `shelfPackage` is compiled, without some methods. -/
def shelfOptions (excluded : List String) : CompileOptions where
  package := "example.com/shelf"
  entrypoint := "Shelf"
  excluded := excluded
  fieldless := []
  service := none
  protoPackage := none
  options := .empty
  sortMethods := false

/-- Without the lists of messages the only nested container has its block. -/
theorem wrapper_names_iff_shelf :
    ∃ schema, shelfPackage.compile (shelfOptions ["Sort"]) = .ok schema ∧
      schema.Nested (.entry 9) ∧ ∀ c, schema.Nested c → schema.Represents c := by
  have hcompile : ((shelfPackage.compile (shelfOptions ["Sort"])).toOption.any fun schema =>
      decide (schema.pool.typesOf schema.definitions = [.entry 10] ∧
        (schema.pool.wrappers schema.definitions).map (·.container) = [.entry 9] ∧
        schema.pool.nest? (.entry 10) = some (.entry 9) ∧
        schema.pool.nest? (.entry 9) = none)) = true := by
    decide +kernel
  obtain ⟨schema, hschema, hfacts⟩ := (Option.any_eq_true _ _).1 hcompile
  obtain ⟨htypes, hwrappers, hfirst, hnone⟩ := of_decide_eq_true hfacts
  have hok := eq_ok_of_toOption hschema
  -- there is one nested container
  have honly : ∀ c, schema.Nested c → c = .entry 9 := by
    rintro c ⟨id, hid | ⟨w, hw, rfl⟩, hnest⟩
    · rw [htypes, List.mem_singleton] at hid
      rw [hid, hfirst] at hnest
      exact (Option.some.inj hnest).symm
    · have hcontainer : w.container ∈ [EntryId.entry 9] :=
        hwrappers ▸ List.mem_map.2 ⟨w, hw, rfl⟩
      rw [List.mem_singleton.1 hcontainer, hnone] at hnest
      cases hnest
  refine ⟨schema, hok, ⟨.entry 10, Or.inl (by simp [htypes]), hfirst⟩, ?_⟩
  refine (Package.wrapper_names_iff hok).2.2 fun c c' hc hc' _ => ?_
  rw [honly c hc, honly c' hc']

/-- With both, lists of messages are written as lists of strings. -/
theorem shelf_shares_wrapper :
    shelfManifest.build = .ok shelfPackage ∧
      ∃ schema c, shelfPackage.compile (shelfOptions []) = .ok schema ∧ schema.Nested c ∧
        ¬ schema.Represents c := by
  have hbuild : shelfManifest.build.toOption = some shelfPackage := by
    decide +kernel
  have hcompile : ((shelfPackage.compile (shelfOptions [])).toOption.any fun schema =>
      decide (.entry 13 ∈ schema.pool.typesOf schema.definitions ∧
        schema.pool.nest? (.entry 13) = some (.entry 12) ∧
        schema.pool.fieldType (.entry 12) = .repeated (.block "String") ∧
        ⟨schema.pool.label (.entry 12), .message [⟨.repeated (.scalar .string), "values"⟩]⟩
          ∈ schema.document.blocks)) = true := by
    decide +kernel
  obtain ⟨schema, hschema, hfacts⟩ := (Option.any_eq_true _ _).1 hcompile
  obtain ⟨htype, hnest, hfield, hblock⟩ := of_decide_eq_true hfacts
  refine ⟨eq_ok_of_toOption hbuild, schema, .entry 12, eq_ok_of_toOption hschema,
    ⟨.entry 13, Or.inl htype, hnest⟩, ?_⟩
  -- the only block of that name holds strings, the field of the container messages
  rintro ⟨_, hall⟩
  obtain ⟨w, _, hw, htext⟩ := hall _ hblock rfl
  have hwrapped : FieldType.repeated (.scalar .string) = schema.pool.fieldType w.container ∧
      "values" = schema.pool.wrapperField w := by
    simpa [Pool.wrapperBlock] using congrArg Block.body hw
  rw [← hwrapped.1, hfield] at htext
  exact absurd htext (by decide)

end RpcSchema
