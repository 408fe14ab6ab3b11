/-
  RpcSchema.Proofs.Proto.Sections
  ───────────────────────────────
  **THE TEXT OF A SCHEMA, CUT AT ITS BLANK LINES.**

  A schema is written in sections: the syntax line, the import line, the
  package line if there is a package, the options by key if there are any,
  the service, and one section per block.  Cutting the text at its blank
  lines gives exactly these sections back, as long as no name has a line
  end in it; option values and literals may be any texts.

    • names have no line end, and numbers and escaped texts never have one;
    • names of wrappers are put together from the names of definitions, so
      they have none either (`Plain.oneLine_labelWithin`);
    • a section is not empty, and no line of it is blank
      (`Plain.isParagraph`).

  Main statement: `text_layout`.
-/
import Mathlib.Tactic.FinCases
import RpcSchema.Proofs.Proto.Budget
import RpcSchema.Proofs.Proto.Closed
import RpcSchema.Proofs.Text.Paragraphs
import RpcSchema.Proto.Layout

namespace RpcSchema

open Text (OneLine IsParagraph oneLine_append)

/-! ## §1. Sections as lines of text. -/

/-- A line as it is read. -/
def Line.shown (l : Line) : String :=
  Emission.spaces (l.level * Emission.indentWidth) ++ l.text

@[simp]
theorem Line.shown_zero (fragments : List String) :
    Line.shown ⟨0, fragments⟩ = String.join fragments :=
  String.empty_append

namespace Layout

/-- Lines are written as text with a line end each. -/
theorem text_lineSteps (lines : List Line) :
    Emission.text (lines.flatMap lineSteps) = Text.ofLines (lines.map Line.shown) := by
  induction lines with
  | nil => rfl
  | cons l lines ih =>
    rw [List.flatMap_cons, Emission.text_append, ih, List.map_cons, Text.ofLines_cons, text_line]
    rfl

/-- **Sections are written with a blank line between two of them.** -/
theorem text_sectionSteps (sections : List (List Line)) :
    Emission.text (sectionSteps sections)
      = Text.ofLines (Text.spaced (sections.map (·.map Line.shown))) := by
  induction sections with
  | nil => rfl
  | cons lines rest ih =>
    -- a blank line stands between two sections only, never behind the last
    cases rest with
    | nil =>
      rw [List.map_singleton, Text.spaced_singleton]
      exact text_lineSteps lines
    | cons next rest =>
      show Emission.text (lines.flatMap lineSteps ++ .newline :: sectionSteps (next :: rest)) = _
      rw [Emission.text_append, text_lineSteps, Emission.text_cons, ih]
      simp only [List.map_cons, Text.spaced_cons_cons, Text.ofLines_append, Text.ofLines_cons]
      rfl

/-! ## §2. What the sections say. -/

/-- A block between braces as it is read; an empty one takes a single line. -/
def bracedText (head : String) (body : List String) : List String :=
  if body = [] then [head ++ " \x7b\x7d"] else (head ++ " \x7b") :: (body ++ ["\x7d"])

/-- Fields as they are read: the type, the name, and the position counted from one. -/
def numbered (indentation : String) (fields : List ProtoField) : List String :=
  fields.mapIdx fun i f =>
    indentation ++ f.type.text ++ " " ++ f.name ++ " = " ++ toString (i + 1) ++ ";"

/-- The fields made of a list are numbered by their places in it. -/
theorem numbered_map {α : Type} (indentation : String) (field : α → ProtoField) (l : List α) :
    numbered indentation (l.map field) = l.mapIdx fun i a =>
      indentation ++ (field a).type.text ++ " " ++ (field a).name ++ " = " ++ toString (i + 1)
        ++ ";" := by
  apply List.ext_getElem?
  intro i
  unfold numbered
  rw [List.getElem?_mapIdx, List.getElem?_mapIdx, List.getElem?_map]
  cases l[i]? <;> rfl

/-- The comment behind a member whose constant is no ordinal. -/
def literalComment : Option String → String
  | some literal => " // " ++ Text.singleLine literal
  | none => ""

/-- The members of an enum as they are read, with the literals in comments. -/
def memberTexts (members : List EnumMember) : List String :=
  members.map fun m =>
    "  " ++ m.name ++ " = " ++ toString m.ordinal ++ ";" ++ literalComment m.literal

/-- A block between braces is read as such. -/
theorem shown_braced (head : List String) (body : List Line) :
    (braced head body).map Line.shown = bracedText (String.join head) (body.map Line.shown) := by
  cases body with
  | nil => simp [braced, bracedText]
  | cons l body => simp [braced, bracedText]

/-- Fields are read with their indentation. -/
theorem shown_fieldLines (level : Nat) (fields : List ProtoField) :
    (fieldLines level fields).map Line.shown
      = numbered (Emission.spaces (level * Emission.indentWidth)) fields := by
  apply List.ext_getElem?
  intro i
  unfold fieldLines numbered
  rw [List.getElem?_map, List.getElem?_map, List.getElem?_zipIdx, List.getElem?_mapIdx]
  cases fields[i]? with
  | none => rfl
  | some f => simp [fieldLine, Line.shown, Line.text, String.append_assoc, Nat.add_comm]

theorem join_commentFragments (literal : Option String) :
    String.join (commentFragments literal) = literalComment literal := by
  cases literal <;> simp [commentFragments, literalComment]

/-- Members are read with their comments. -/
theorem shown_memberLines (members : List EnumMember) :
    (members.map memberLine).map Line.shown = memberTexts members := by
  unfold memberTexts
  rw [List.map_map]
  refine List.map_congr_left fun m _ => ?_
  show Line.shown (memberLine m) = _
  simp [memberLine, Line.shown, Line.text, String.append_assoc, join_commentFragments,
    Emission.spaces, Emission.indentWidth]

end Layout

/-- The section of a block as it is read. -/
def Block.paragraph (b : Block) : List String :=
  match b.body with
  | .message fields => Layout.bracedText ("message " ++ b.name) (Layout.numbered "  " fields)
  | .oneof fields => Layout.bracedText ("message " ++ b.name)
      ("  oneof value \x7b" :: (Layout.numbered "    " fields ++ ["  \x7d"]))
  | .enum members => Layout.bracedText ("enum " ++ b.name) (Layout.memberTexts members)

/-- **The lines of a block are read as its section.** -/
theorem Block.shown_blockLines (b : Block) :
    (Layout.blockLines b).map Line.shown = b.paragraph := by
  unfold Layout.blockLines Block.paragraph
  rw [Layout.shown_braced]
  cases b.body with
  | message fields =>
    show Layout.bracedText _ ((Layout.fieldLines 1 fields).map Line.shown) = _
    rw [Layout.shown_fieldLines]
    rfl
  | enum members =>
    show Layout.bracedText _ ((members.map Layout.memberLine).map Line.shown) = _
    rw [Layout.shown_memberLines]
    rfl
  -- the members stand one level deeper, inside the braces of the oneof
  | oneof fields =>
    show Layout.bracedText _ (((⟨1, ["oneof value \x7b"]⟩ : Line) ::
      Layout.fieldLines 2 fields ++ [(⟨1, ["\x7d"]⟩ : Line)]).map Line.shown) = _
    rw [List.map_append, List.map_cons, Layout.shown_fieldLines]
    rfl

/-- The sections of a document as they are read. -/
def Document.paragraphs (d : Document) : List (List String) :=
  [["syntax = \"proto3\";"], ["import \"google/protobuf/any.proto\";"]]
    ++ d.package.toList.map (fun name => ["package " ++ name ++ ";"])
    ++ (if d.options.entries = [] then [] else
      [d.options.entries.map fun e => "option " ++ e.1 ++ " = " ++ Text.Quoted.encode e.2 ++ ";"])
    ++ [Layout.bracedText ("service " ++ d.service) (d.methods.map fun r =>
      "  rpc " ++ r.name ++ "(" ++ r.request.text ++ ") returns (" ++ r.response.text ++ ");")]
    ++ d.blocks.map Block.paragraph

theorem Document.paragraphs_ne_nil (d : Document) : d.paragraphs ≠ [] :=
  List.cons_ne_nil _ _

/-- **The sections of a document are read as they are said to.** -/
theorem Document.shown_sections (d : Document) :
    (Layout.sections d).map (·.map Line.shown) = d.paragraphs := by
  -- section by section: package and options may be missing
  have hpackage : (Layout.packageSections d.package).map (·.map Line.shown)
      = d.package.toList.map fun name => ["package " ++ name ++ ";"] := by
    cases d.package with
    | none => rfl
    | some name => exact congrArg (fun l => [[l]]) (Line.shown_zero _)
  have hoptions : (Layout.optionSections d.options).map (·.map Line.shown)
      = if d.options.entries = [] then [] else [d.options.entries.map fun e =>
        "option " ++ e.1 ++ " = " ++ Text.Quoted.encode e.2 ++ ";"] := by
    unfold Layout.optionSections
    cases d.options.entries with
    | nil => rfl
    | cons e rest => simp [Layout.optionLine, String.append_assoc]
  have hservice : (Layout.serviceLines d).map Line.shown
      = Layout.bracedText ("service " ++ d.service) (d.methods.map fun r =>
        "  rpc " ++ r.name ++ "(" ++ r.request.text ++ ") returns (" ++ r.response.text ++ ");") := by
    unfold Layout.serviceLines
    rw [Layout.shown_braced, List.map_map]
    congr 1
  unfold Layout.sections paragraphs
  simp only [List.map_append, List.map_cons, List.map_nil, Line.shown_zero, hpackage, hoptions, hservice,
    List.map_map, Function.comp_def, Block.shown_blockLines]
  rfl

/-- The text of a document is that of its sections, with a blank line between two of them. -/
theorem Document.text_eq_ofLines (d : Document) :
    d.text = Text.ofLines (Text.spaced d.paragraphs) := by
  rw [← d.shown_sections]
  exact Layout.text_sectionSteps (Layout.sections d)

/-! ## §3. Names without line ends. -/

/-- The names that a definition writes: its own, and those of its fields or members. -/
def Definition.names : Definition → List String
  | .message name fields => name :: fields.map (·.name)
  | .enum name members => name :: members.map (·.name)
  | .interface name _ => [name]

/-- No name that a schema writes has a line end in it. -/
structure Schema.Plain (s : Schema) : Prop where
  service : OneLine s.service
  package : ∀ name ∈ s.package, OneLine name
  options : ∀ e ∈ s.options.entries, OneLine e.1
  methods : ∀ m ∈ s.methods, OneLine m.name
  definitions : ∀ a ∈ s.definitions, ∀ d, s.pool.entry a = .definition d →
    ∀ name ∈ d.names, OneLine name

/-- The containers of all types that a schema reaches unfold finitely. -/
def Schema.Unfolds (s : Schema) : Prop :=
  ∀ a ∈ s.pool.visitOrder s.roots, s.pool.Bounded a

theorem Definition.name_mem_names (d : Definition) : d.name ∈ d.names := by
  cases d <;> exact List.mem_cons_self

namespace Schema

variable {s : Schema} {a x : EntryId}

/-- The containers nested in what is visited are visited. -/
theorem Unfolds.nestedWithin_mem_visitOrder (h : s.Unfolds) (n : Nat)
    (hx : s.pool.resolve x ∈ s.pool.visitOrder s.roots) :
    ∀ c ∈ s.pool.nestedWithin n x, c ∈ s.pool.visitOrder s.roots ∧
      Pool.isContainerEntry (s.pool.entry c) = true := by
  -- on the number of layers; each container lies inside the one before
  induction n generalizing x with
  | zero => exact fun c hc => absurd hc List.not_mem_nil
  | succ n ih =>
    intro c hc
    cases hnest : s.pool.nest? x with
    | none =>
      rw [Pool.nestedWithin_of_none s.pool hnest] at hc
      exact absurd hc List.not_mem_nil
    | some first =>
      rw [Pool.nestedWithin_of_some s.pool hnest] at hc
      obtain ⟨y, hy, hcontainer, rfl⟩ := (Pool.nest_eq_some_iff (h _ hx)).1 hnest
      have hvisited := Pool.inner_mem_visitOrder (Pool.element_mem_visitOrder hx) hy
      rcases List.mem_cons.1 hc with rfl | hc
      · exact ⟨hvisited, hcontainer⟩
      · exact ih (by rwa [Pool.resolve_of_container hcontainer]) c hc

/-- **The containers of wrappers are visited.** -/
theorem Unfolds.container_mem_visitOrder (h : s.Unfolds) {w : Pool.Wrapper}
    (hw : w ∈ s.pool.wrappers s.definitions) :
    w.container ∈ s.pool.visitOrder s.roots ∧
      Pool.isContainerEntry (s.pool.entry w.container) = true := by
  obtain ⟨type, htype, hnested⟩ := Pool.exists_nested_of_mem_wrappers hw
  exact h.nestedWithin_mem_visitOrder _ (Pool.fieldType_mem_visitOrder htype) _ hnested

theorem oneLine_label (c : Scalar) : OneLine c.label := by
  cases c <;> decide

theorem oneLine_name (c : Scalar) : OneLine c.name := by
  cases c <;> decide

namespace Plain

theorem oneLine_definition (h : s.Plain) (ha : a ∈ s.pool.visitOrder s.roots) {d : Definition}
    (hd : s.pool.entry a = .definition d) {name : String} (hname : name ∈ d.names) :
    OneLine name :=
  h.definitions a (Pool.mem_reachable_iff.2 ⟨ha, by rw [hd]; rfl⟩) d hd name hname

/-- By induction on the levels that are unfolded: what a name is put together from is visited. -/
theorem oneLine_labelWithin (h : s.Plain) (n : Nat)
    (hx : s.pool.resolve x ∈ s.pool.visitOrder s.roots) : OneLine (s.pool.labelWithin n x) := by
  -- on the budget, with the parts of a visited entry visited too
  induction n generalizing x with
  | zero =>
    show OneLine ""
    decide
  | succ n ih =>
    have helement := Pool.element_mem_visitOrder hx
    have hpart : ∀ y ∈ (s.pool.entry (s.pool.element x)).parts, OneLine (s.pool.labelWithin n y) :=
      fun y hy => ih (Pool.visitOrder_closed helement hy)
    unfold Pool.labelWithin
    cases hentry : s.pool.entry (s.pool.element x) with
    | scalar c => exact oneLine_label c
    | array of =>
      rw [hentry] at hpart
      exact oneLine_append.2 ⟨hpart of (by simp [Entry.parts]), by decide⟩
    | map key value =>
      rw [hentry] at hpart
      have hkey := hpart key (by simp [Entry.parts])
      have hvalue := hpart value (by simp [Entry.parts])
      simp +decide [hkey, hvalue]
    | definition d => exact h.oneLine_definition helement hentry d.name_mem_names
    -- neither has a name of its own to show
    | any | reference =>
      show OneLine "Any"
      decide
    | optional =>
      show OneLine ""
      decide

/-- Elements are named on one line. -/
theorem oneLine_elementName (h : s.Plain) (hx : s.pool.resolve x ∈ s.pool.visitOrder s.roots) :
    OneLine (s.pool.elementName x).text := by
  have helement := Pool.element_mem_visitOrder hx
  -- a container resolves to itself, so its name is that of something visited
  have hlabel : Pool.isContainerEntry (s.pool.entry (s.pool.element x)) = true →
      OneLine (s.pool.label (s.pool.element x)) := fun hc =>
    h.oneLine_labelWithin _ (by rwa [Pool.resolve_of_container hc])
  unfold Pool.elementName
  dsimp only
  cases hentry : s.pool.entry (s.pool.element x) with
  | scalar c => exact oneLine_name c
  | array of => exact hlabel (by rw [hentry]; rfl)
  | map key value => exact hlabel (by rw [hentry]; rfl)
  | definition d => exact h.oneLine_definition helement hentry d.name_mem_names
  | any | reference | optional =>
    show OneLine anyText
    decide

/-- Keys are named on one line. -/
theorem oneLine_keyName (h : s.Plain) (hx : s.pool.resolve x ∈ s.pool.visitOrder s.roots) :
    OneLine (s.pool.keyName x).text := by
  unfold Pool.keyName
  split
  · decide
  · exact h.oneLine_elementName hx

/-- Containers are named on one line. -/
theorem oneLine_containerType (h : s.Plain) (ha : a ∈ s.pool.visitOrder s.roots) {t : FieldType}
    (ht : s.pool.containerType? (s.pool.entry a) = some t) : OneLine t.text := by
  have hpart : ∀ y ∈ (s.pool.entry a).parts, s.pool.resolve y ∈ s.pool.visitOrder s.roots :=
    fun y hy => Pool.visitOrder_closed ha hy
  cases hentry : s.pool.entry a with
  | array of =>
    rw [hentry] at ht hpart
    obtain rfl := Option.some.inj ht
    have hof := h.oneLine_elementName (hpart of (by simp [Entry.parts]))
    exact oneLine_append.2 ⟨by decide, hof⟩
  | map key value =>
    rw [hentry] at ht hpart
    obtain rfl := Option.some.inj ht
    have hkey := h.oneLine_keyName (hpart key (by simp [Entry.parts]))
    have hvalue := h.oneLine_elementName (hpart value (by simp [Entry.parts]))
    simp +decide [FieldType.text, hkey, hvalue]
  -- anything else is no container and has no such type
  | _ =>
    rw [hentry] at ht
    cases ht

/-- **The type of a field is on one line.** -/
theorem oneLine_fieldType (h : s.Plain) (hx : s.pool.resolve x ∈ s.pool.visitOrder s.roots) :
    OneLine (s.pool.fieldType x).text := by
  unfold Pool.fieldType
  split
  · -- an optional shows a container bare and marks anything else
    rename_i y hy
    have hy' : s.pool.resolve y ∈ s.pool.visitOrder s.roots := by
      refine Pool.visitOrder_closed hx ?_
      rw [show s.pool.entry (s.pool.resolve x) = .optional y from hy]
      exact List.mem_cons_self
    cases ht : s.pool.containerType? (s.pool.entry (s.pool.element y)) with
    | some t => exact h.oneLine_containerType (Pool.element_mem_visitOrder hy') ht
    | none => exact oneLine_append.2 ⟨by decide, h.oneLine_elementName hy'⟩
  · -- no optional
    cases ht : s.pool.containerType? (s.pool.resolved x) with
    | some t => exact h.oneLine_containerType hx ht
    | none => exact h.oneLine_elementName hx

end Plain

end Schema

/-! ## §4. Blocks on lines. -/

/-- The types and names in the body of a block have no line end in them. -/
def BlockBody.Plain : BlockBody → Prop
  | .message fields | .oneof fields => ∀ f ∈ fields, OneLine f.type.text ∧ OneLine f.name
  | .enum members => ∀ m ∈ members, OneLine m.name

namespace Schema

variable {s : Schema} {a x : EntryId}

/-- The body of a definition that is reached has no line end in it. -/
theorem Plain.body_definition (h : s.Plain) (ha : a ∈ s.pool.visitOrder s.roots) {d : Definition}
    (hd : s.pool.entry a = .definition d) : (s.pool.definitionBody d).Plain := by
  have hpart : ∀ y ∈ d.parts, s.pool.resolve y ∈ s.pool.visitOrder s.roots := fun y hy =>
    Pool.visitOrder_closed ha (by rw [hd]; exact hy)
  have hnames : ∀ name ∈ d.names, OneLine name := fun name => h.oneLine_definition ha hd
  cases d with
  | message name fields =>
    intro f hf
    obtain ⟨g, hg, rfl⟩ := List.mem_map.1 hf
    exact ⟨h.oneLine_fieldType (hpart g.type (List.mem_map.2 ⟨g, hg, rfl⟩)),
      hnames g.name (List.mem_cons_of_mem _ (List.mem_map.2 ⟨g, hg, rfl⟩))⟩
  | enum name members =>
    intro m hm
    exact hnames m.name (List.mem_cons_of_mem _ (List.mem_map.2 ⟨m, hm, rfl⟩))
  | interface name implementations =>
    cases implementations with
    -- no implementation: the one field is of the type that holds anything
    | nil =>
      intro f hf
      rw [List.mem_singleton.1 hf]
      exact ⟨by decide, by decide⟩
    | cons first rest =>
      intro f hf
      obtain ⟨y, hy, rfl⟩ := List.mem_map.1 hf
      have helement := h.oneLine_elementName (hpart y hy)
      exact ⟨helement, Text.oneLine_snakeCase helement⟩

/-- **The name and the body of every block are on their lines.** -/
theorem Plain.block (h : s.Plain) (hfinite : s.Unfolds) {b : Block} (hb : b ∈ s.document.blocks) :
    OneLine b.name ∧ b.body.Plain := by
  rcases mem_blocks_cases hb with ⟨a, d, ha, hd, rfl⟩ | ⟨w, hw, rfl⟩
  · exact ⟨h.oneLine_definition ha hd d.name_mem_names, h.body_definition ha hd⟩
  · obtain ⟨hvisited, hcontainer⟩ := hfinite.container_mem_visitOrder hw
    have hresolve : s.pool.resolve w.container ∈ s.pool.visitOrder s.roots := by
      rwa [Pool.resolve_of_container hcontainer]
    refine ⟨?_, ?_⟩
    · -- a wrapper is called after its container
      show OneLine w.name
      rw [(s.pool.wrappers_spec s.definitions).1.named w hw]
      exact h.oneLine_labelWithin _ hresolve
    · intro f hf
      rw [List.mem_singleton.1 hf]
      refine ⟨h.oneLine_fieldType hresolve, ?_⟩
      show OneLine (s.pool.wrapperField w)
      unfold Pool.wrapperField
      split <;> decide

end Schema

namespace Layout

theorem append_ne_empty (front : String) {back : String} (h : back ≠ "") : front ++ back ≠ "" := by
  intro hempty
  exact h (String.append_eq_empty_iff.1 hempty).2

/-- A block between braces is a group of lines. -/
theorem isParagraph_bracedText {head : String} {body : List String} (hhead : OneLine head)
    (hbody : ∀ l ∈ body, OneLine l ∧ l ≠ "") : IsParagraph (bracedText head body) := by
  unfold bracedText
  -- one line when there is nothing between the braces
  split
  · refine ⟨List.cons_ne_nil _ _, fun l hl => ?_⟩
    rw [List.mem_singleton.1 hl]
    exact ⟨oneLine_append.2 ⟨hhead, by decide⟩, append_ne_empty _ (by decide)⟩
  · refine ⟨List.cons_ne_nil _ _, fun l hl => ?_⟩
    rcases List.mem_cons.1 hl with rfl | hl
    · exact ⟨oneLine_append.2 ⟨hhead, by decide⟩, append_ne_empty _ (by decide)⟩
    · rcases List.mem_append.1 hl with hl | hl
      · exact hbody l hl
      · rw [List.mem_singleton.1 hl]
        exact ⟨by decide, by decide⟩

/-- A numbered field is a line. -/
theorem line_of_mem_numbered {indentation l : String} {fields : List ProtoField}
    (hindent : OneLine indentation)
    (h : ∀ f ∈ fields, OneLine f.type.text ∧ OneLine f.name)
    (hl : l ∈ numbered indentation fields) : OneLine l ∧ l ≠ "" := by
  obtain ⟨i, hi, rfl⟩ := List.mem_mapIdx.1 hl
  obtain ⟨htype, hname⟩ := h fields[i] (List.getElem_mem hi)
  refine ⟨?_, append_ne_empty _ (by decide)⟩
  simp +decide [hindent, htype, hname]

end Layout

/-- **A block without line ends in its names is a group of lines.** -/
theorem Block.isParagraph {b : Block} (hname : OneLine b.name) (hbody : b.body.Plain) :
    IsParagraph b.paragraph := by
  unfold paragraph
  cases hkind : b.body with
  | message fields =>
    rw [hkind] at hbody
    exact Layout.isParagraph_bracedText (oneLine_append.2 ⟨by decide, hname⟩) fun l hl =>
      Layout.line_of_mem_numbered (by decide) hbody hl
  | enum members =>
    rw [hkind] at hbody
    refine Layout.isParagraph_bracedText (oneLine_append.2 ⟨by decide, hname⟩) fun l hl => ?_
    obtain ⟨m, hm, rfl⟩ := List.mem_map.1 hl
    have hcomment : OneLine (Layout.literalComment m.literal) := by
      cases m.literal with
      | none => decide
      | some literal => exact oneLine_append.2 ⟨by decide, Text.oneLine_singleLine literal⟩
    -- the literal may be any text, but it was put on one line
    refine ⟨by simp +decide [hbody m hm, hcomment], fun hempty => ?_⟩
    exact Layout.append_ne_empty _ (by decide) (String.append_eq_empty_iff.1 hempty).1
  | oneof fields =>
    rw [hkind] at hbody
    refine Layout.isParagraph_bracedText (oneLine_append.2 ⟨by decide, hname⟩) fun l hl => ?_
    rcases List.mem_cons.1 hl with rfl | hl
    · exact ⟨by decide, by decide⟩
    · rcases List.mem_append.1 hl with hl | hl
      · exact Layout.line_of_mem_numbered (by decide) hbody hl
      · rw [List.mem_singleton.1 hl]
        exact ⟨by decide, by decide⟩

/-! ## §5. The text of a schema. -/

namespace Schema

variable {s : Schema}

/-- **No section is empty, and no line of one is blank or broken.** -/
theorem Plain.isParagraph (h : s.Plain) (hfinite : s.Unfolds) :
    ∀ g ∈ s.document.paragraphs, IsParagraph g := by
  intro g hg
  unfold Document.paragraphs at hg
  simp only [List.mem_append, List.mem_cons, List.not_mem_nil, or_false, List.mem_map] at hg
  rcases hg with ((((rfl | rfl) | ⟨name, hname, rfl⟩) | hg) | rfl) | ⟨b, hb, rfl⟩
  · exact ⟨List.cons_ne_nil _ _, by simp; decide⟩
  · exact ⟨List.cons_ne_nil _ _, by simp; decide⟩
  · refine ⟨List.cons_ne_nil _ _, fun l hl => ?_⟩
    rw [List.mem_singleton.1 hl]
    have hplain : OneLine name := h.package name (Option.mem_toList.1 hname)
    exact ⟨by simp +decide [hplain], Layout.append_ne_empty _ (by decide)⟩
  · -- there is a section for the options only if there is an option
    split at hg
    · exact absurd hg List.not_mem_nil
    · rename_i hentries
      rw [List.mem_singleton.1 hg]
      refine ⟨fun hnil => hentries (List.map_eq_nil_iff.1 hnil), fun l hl => ?_⟩
      obtain ⟨e, he, rfl⟩ := List.mem_map.1 hl
      have hvalue := Text.Quoted.oneLine_encode e.2
      exact ⟨by simp +decide [h.options e he, hvalue], Layout.append_ne_empty _ (by decide)⟩
  · refine Layout.isParagraph_bracedText (oneLine_append.2 ⟨by decide, h.service⟩) fun l hl => ?_
    obtain ⟨r, hr, rfl⟩ := List.mem_map.1 hl
    obtain ⟨m, hm, rfl⟩ := List.mem_map.1 hr
    have hroot : ∀ root ∈ [m.request, m.response], OneLine (s.pool.elementName root).text :=
      fun root hroot => h.oneLine_elementName
        (Pool.root_mem_visitOrder (List.mem_flatMap.2 ⟨m, hm, hroot⟩))
    have hrequest := hroot m.request (by simp)
    have hresponse := hroot m.response (by simp)
    exact ⟨by simp +decide [Pool.rpc, h.methods m hm, hrequest, hresponse],
      Layout.append_ne_empty _ (by decide)⟩
  · obtain ⟨hname, hbody⟩ := h.block hfinite hb
    exact Block.isParagraph hname hbody

/-- The text is that of its sections, with one line end behind them. -/
theorem text_eq_join (h : s.Plain) (hfinite : s.Unfolds) :
    s.text = Text.join '\n' (Text.spaced s.document.paragraphs) ++ "\n" := by
  show s.document.text = _
  rw [s.document.text_eq_ofLines]
  exact Text.ofLines_eq_join (Text.spaced_ne_nil s.document.paragraphs_ne_nil
    (h.isParagraph hfinite))

/-- A definition that is reached has its section. -/
theorem paragraph_mem (s : Schema) {a : EntryId} (ha : a ∈ s.definitions) {d : Definition}
    (hd : s.pool.entry a = .definition d) :
    (s.pool.definitionBlock d).paragraph ∈ s.document.paragraphs := by
  refine List.mem_append_right _ (List.mem_map.2 ⟨_, ?_, rfl⟩)
  refine Sequence.mem_sortBy.2 (List.mem_append_left _ ?_)
  exact List.mem_filterMap.2 ⟨a, ha, by simp [Pool.entryBlock?, hd]⟩

end Schema

/-- **The text of a schema is laid out in sections.**

Let the containers that a schema reaches unfold finitely, and let no name that it writes have a
line end in it; the values of options and the literals of members may be any texts.  The text ends
with exactly one line end, and cutting it at its blank lines gives the syntax line, the import
line, the package line if there is a package, the options in ascending order of their keys if there
are any, the service with a line per method, and a section per block.

The section of a message has a line per field, in their order, with the type and the name of the
field and its position counted from one; that of an interface has such a line per implementation,
and that of a wrapper the one line of its field. -/
theorem text_layout {s : Schema} (hfinite : s.Unfolds) (h : s.Plain) :
    ∃ body, s.text = body ++ "\n" ∧ (∀ front, body ≠ front ++ "\n") ∧
      Text.paragraphs body =
        [["syntax = \"proto3\";"], ["import \"google/protobuf/any.proto\";"]]
          ++ s.package.toList.map (fun name => ["package " ++ name ++ ";"])
          ++ (if s.options.entries = [] then [] else [s.options.entries.map fun e =>
            "option " ++ e.1 ++ " = " ++ Text.Quoted.encode e.2 ++ ";"])
          ++ [Layout.bracedText ("service " ++ s.service) (s.methods.map fun m =>
            "  rpc " ++ m.name ++ "(" ++ (s.pool.elementName m.request).text ++ ") returns ("
              ++ (s.pool.elementName m.response).text ++ ");")]
          ++ s.document.blocks.map Block.paragraph ∧
      s.options.entries.Pairwise (fun e e' => e.1 < e'.1) ∧
      (∀ a ∈ s.definitions, ∀ name fields, s.pool.entry a = .definition (.message name fields) →
        Layout.bracedText ("message " ++ name) (fields.mapIdx fun i f =>
          "  " ++ (s.pool.fieldType f.type).text ++ " " ++ f.name ++ " = " ++ toString (i + 1)
            ++ ";") ∈ Text.paragraphs body) ∧
      (∀ a ∈ s.definitions, ∀ name implementations, implementations ≠ [] →
        s.pool.entry a = .definition (.interface name implementations) →
        Layout.bracedText ("message " ++ name) ("  oneof value \x7b" ::
          (implementations.mapIdx (fun i y =>
            "    " ++ (s.pool.elementName y).text ++ " "
              ++ Text.snakeCase (s.pool.elementName y).text ++ " = " ++ toString (i + 1) ++ ";")
            ++ ["  \x7d"])) ∈ Text.paragraphs body) ∧
      ∀ w ∈ s.pool.wrappers s.definitions,
        ["message " ++ w.name ++ " \x7b",
          "  " ++ (s.pool.fieldType w.container).text ++ " " ++ s.pool.wrapperField w ++ " = 1;",
          "\x7d"] ∈ Text.paragraphs body := by
  -- cutting at blank lines undoes joining by them
  have hcut := Text.paragraphs_join s.document.paragraphs_ne_nil (h.isParagraph hfinite)
  refine ⟨Text.join '\n' (Text.spaced s.document.paragraphs), Schema.text_eq_join h hfinite,
    Text.not_ends_join s.document.paragraphs_ne_nil (h.isParagraph hfinite), ?_, s.options.ordered,
    ?_, ?_, ?_⟩
  · rw [hcut]
    show Document.paragraphs s.document = _
    unfold Document.paragraphs Schema.document
    rw [List.map_map]
    rfl
  · intro a ha name fields hd
    rw [hcut]
    have hsection := s.paragraph_mem ha hd
    simp only [Pool.definitionBlock, Pool.definitionBody, Block.paragraph,
      Layout.numbered_map] at hsection
    exact hsection
  · intro a ha name implementations hne hd
    rw [hcut]
    obtain ⟨first, rest, rfl⟩ := List.exists_cons_of_ne_nil hne
    have hsection := s.paragraph_mem ha hd
    simp only [Pool.definitionBlock, Pool.definitionBody, Block.paragraph,
      Layout.numbered_map] at hsection
    exact hsection
  · -- the block of a wrapper is one of the blocks, with a single field
    intro w hw
    rw [hcut]
    have hblock : s.pool.wrapperBlock w ∈ s.document.blocks :=
      Sequence.mem_sortBy.2 (List.mem_append_right _ (List.mem_map.2 ⟨w, hw, rfl⟩))
    refine List.mem_append_right _ (List.mem_map.2 ⟨_, hblock, ?_⟩)
    have htag : " = " ++ (Nat.repr 1 ++ ";") = " = 1;" := by decide
    simp [Block.paragraph, Pool.wrapperBlock, Layout.bracedText, Layout.numbered,
      String.append_assoc, htag]

/-- A kennel keeps pets by their size; an option and a literal have line ends in them. -/
def kennel : Schema where
  service := "Kennel"
  package := some "pets"
  options := .ofList [("owner", "Ann\n\nBob"), ("area", "7")]
  methods := [⟨"Keep", .entry 12, .entry 15⟩]
  pool := ⟨Pool.start.entries ++
    #[.definition (.enum "Size" [⟨"SMALL", 0, some "s\n\n"⟩, ⟨"BIG", 1, none⟩]),
      .array (.entry 9), .map (.scalar .string) (.entry 10),
      .definition (.message "KeepRequest" [⟨"bySize", .entry 11⟩, ⟨"pet", .entry 13⟩]),
      .definition (.interface "Pet" [.entry 14]),
      .definition (.message "GuideDog" [⟨"size", .entry 9⟩]),
      .definition (.message "KeepResponse" [])], []⟩

/-- The kennel has containers that unfold finitely. -/
theorem kennel_unfolds : kennel.Unfolds := by
  have hvisit : kennel.pool.visitOrder kennel.roots = [.entry 12, .entry 11, .entry 0, .entry 10,
      .entry 9, .entry 13, .entry 14, .entry 15] := by decide
  -- three levels below any visited entry there is nothing left
  have hends : ∀ a ∈ [EntryId.entry 12, .entry 11, .entry 0, .entry 10, .entry 9, .entry 13,
      .entry 14, .entry 15], ∀ b ∈ kennel.pool.contents a, ∀ c ∈ kennel.pool.contents b,
      kennel.pool.contents c = [] := by decide
  intro a ha
  rw [hvisit] at ha
  refine Graph.EndsWithin.ends (n := 3) fun b hb c hc e he => ?_
  rw [hends a ha b hb c hc] at he
  exact absurd he List.not_mem_nil

theorem kennel_plain : kennel.Plain := by
  have hdefinitions : kennel.definitions
      = [.entry 12, .entry 9, .entry 13, .entry 14, .entry 15] := by decide
  refine ⟨by decide, ?_, by decide, by decide, ?_⟩
  · intro name hname
    cases hname
    decide
  · intro a ha d hd
    rw [hdefinitions] at ha
    fin_cases ha <;> cases hd <;> decide

/-- Neither the option nor the literal opens a section of its own. -/
theorem text_layout_kennel :
    kennel.Unfolds ∧ kennel.Plain ∧ ∃ body, kennel.text = body ++ "\n" ∧
      Text.paragraphs body =
        [["syntax = \"proto3\";"], ["import \"google/protobuf/any.proto\";"], ["package pets;"],
          ["option area = \"7\";", "option owner = \"Ann\\n\\nBob\";"],
          ["service Kennel \x7b", "  rpc Keep(KeepRequest) returns (KeepResponse);", "\x7d"],
          ["message GuideDog \x7b", "  Size size = 1;", "\x7d"],
          ["message KeepRequest \x7b", "  map<string, SizeList> bySize = 1;", "  Pet pet = 2;",
            "\x7d"],
          ["message KeepResponse \x7b\x7d"],
          ["message Pet \x7b", "  oneof value \x7b", "    GuideDog guide_dog = 1;", "  \x7d",
            "\x7d"],
          ["enum Size \x7b", "  SMALL = 0; // s\\n\\n", "  BIG = 1;", "\x7d"],
          ["message SizeList \x7b", "  repeated Size values = 1;", "\x7d"]] := by
  obtain ⟨body, htext, _, hcut, _⟩ := text_layout kennel_unfolds kennel_plain
  refine ⟨kennel_unfolds, kennel_plain, body, htext, hcut.trans ?_⟩
  decide

end RpcSchema
