/-
  RpcSchema.Proofs.Proto.NameOrder
  ────────────────────────────────
  **THE NAME CHECK IS EXACT, AND IT ORDERS THE TEXT.**

  The check goes through the names of definitions, then through those of
  wrappers; the document sorts the blocks of both.  They are the same
  names, so the check passes exactly if no two blocks share one, and then
  the blocks stand in the text in strictly ascending order.

  A method adds a request and a response of its own, named after it.  Two
  methods of one name would be two blocks of one name, so they do not pass
  either.

  Main statement: `name_check_exact`.
-/
import Mathlib.Data.List.Pairwise
import RpcSchema.Proofs.Proto.Closed
import RpcSchema.Proto.Layout

namespace RpcSchema

/-! ## §1. The check. -/

/-- What is found is the first name that stands in the list before. -/
theorem firstRepeated_eq_some_iff {seen l : List String} {name : String} :
    firstRepeated seen l = some name ↔
      ∃ front back, l = front ++ name :: back ∧ front.Nodup ∧ (∀ a ∈ front, a ∉ seen) ∧
        (name ∈ front ∨ name ∈ seen) := by
  induction l generalizing seen with
  | nil => simp [firstRepeated]
  | cons a rest ih =>
    unfold firstRepeated
    by_cases ha : a ∈ seen
    · -- the head is repeated, so nothing may stand in front of what is found
      rw [if_pos ha]
      constructor
      · intro h
        obtain rfl := Option.some.inj h
        exact ⟨[], rest, rfl, List.nodup_nil, fun _ h => absurd h List.not_mem_nil, Or.inr ha⟩
      · rintro ⟨front, back, hl, _, hfresh, _⟩
        cases front with
        | nil => rw [(List.cons.inj hl).1]
        | cons b front =>
          obtain ⟨rfl, _⟩ := List.cons.inj hl
          exact absurd ha (hfresh _ List.mem_cons_self)
    · rw [if_neg ha, ih]
      constructor
      · rintro ⟨front, back, rfl, hnodup, hfresh, hmem⟩
        refine ⟨a :: front, back, rfl, List.nodup_cons.2 ⟨fun h => ?_, hnodup⟩, fun b hb => ?_, ?_⟩
        · exact hfresh a h List.mem_cons_self
        · rcases List.mem_cons.1 hb with rfl | hb
          · exact ha
          · exact fun hs => hfresh b hb (List.mem_cons_of_mem a hs)
        · rcases hmem with hmem | hmem
          · exact Or.inl (List.mem_cons_of_mem a hmem)
          · rcases List.mem_cons.1 hmem with rfl | hmem
            · exact Or.inl List.mem_cons_self
            · exact Or.inr hmem
      · rintro ⟨front, back, hl, hnodup, hfresh, hmem⟩
        cases front with
        | nil =>
          obtain ⟨rfl, rfl⟩ := List.cons.inj hl
          exact absurd (hmem.resolve_left List.not_mem_nil) ha
        | cons b front =>
          obtain ⟨rfl, rfl⟩ := List.cons.inj hl
          obtain ⟨hb, hnodup⟩ := List.nodup_cons.1 hnodup
          refine ⟨front, back, rfl, hnodup, fun c hc hs => ?_, ?_⟩
          · rcases List.mem_cons.1 hs with rfl | hs
            · exact hb hc
            · exact hfresh c (List.mem_cons_of_mem _ hc) hs
          · rcases hmem with hmem | hmem
            · rcases List.mem_cons.1 hmem with rfl | hmem
              · exact Or.inr List.mem_cons_self
              · exact Or.inl hmem
            · exact Or.inr (List.mem_cons_of_mem _ hmem)

namespace Schema

variable {schema : Schema}

/-- The check passes if all names of blocks differ. -/
theorem checkNames_eq_ok_iff : schema.checkNames = .ok () ↔ schema.blockNames.Nodup := by
  unfold checkNames
  cases hfound : firstRepeated [] schema.blockNames with
  | none =>
    have hnodup := (firstRepeated_eq_none_iff.1 hfound).1
    exact iff_of_true rfl hnodup
  | some name =>
    -- a name that was found repeated contradicts distinctness
    refine iff_of_false (fun h => by cases h) fun hnodup => ?_
    have hnone := firstRepeated_eq_none_iff.2 ⟨hnodup, fun a _ => List.not_mem_nil (a := a)⟩
    rw [hfound] at hnone
    cases hnone

/-- The check fails with the first name that repeats an earlier one. -/
theorem checkNames_eq_error_iff {e : CompileError} :
    schema.checkNames = .error e ↔
      ∃ front name back, schema.blockNames = front ++ name :: back ∧ front.Nodup ∧
        name ∈ front ∧ e = .duplicateTypeName name := by
  -- the name that the check reports is the first that repeats an earlier one
  have hfirst : ∀ name, firstRepeated [] schema.blockNames = some name ↔
      ∃ front back, schema.blockNames = front ++ name :: back ∧ front.Nodup ∧ name ∈ front := by
    intro name
    rw [firstRepeated_eq_some_iff]
    simp
  constructor
  · intro h
    unfold checkNames at h
    split at h
    · rename_i name hname
      obtain ⟨front, back, hl, hnodup, hmem⟩ := (hfirst name).1 hname
      cases h
      exact ⟨front, name, back, hl, hnodup, hmem, rfl⟩
    · cases h
  · rintro ⟨front, name, back, hl, hnodup, hmem, rfl⟩
    unfold checkNames
    rw [(hfirst name).2 ⟨front, back, hl, hnodup, hmem⟩]

end Schema

/-! ## §2. The order of the blocks. -/

/-- The lines of a block as text. -/
def Block.text (b : Block) : String :=
  Emission.text ((Layout.blockLines b).flatMap Layout.lineSteps)

namespace Layout

/-- Every section but the first is set off by a blank line. -/
theorem sectionSteps_cons (lines : List Line) (rest : List (List Line)) :
    sectionSteps (lines :: rest) =
      lines.flatMap lineSteps ++ rest.flatMap fun lines => .newline :: lines.flatMap lineSteps := by
  induction rest generalizing lines with
  | nil => exact (List.append_nil _).symm
  | cons next rest ih =>
    show lines.flatMap lineSteps ++ .newline :: sectionSteps (next :: rest) = _
    rw [ih next]
    rfl

/-- Sections in two groups are written one after the other, each behind a blank line but the
first. -/
theorem sectionSteps_append {front : List (List Line)} (hfront : front ≠ [])
    (rest : List (List Line)) :
    sectionSteps (front ++ rest) =
      sectionSteps front ++ rest.flatMap fun lines => .newline :: lines.flatMap lineSteps := by
  obtain ⟨lines, front, rfl⟩ := List.exists_cons_of_ne_nil hfront
  rw [List.cons_append, sectionSteps_cons, sectionSteps_cons, List.flatMap_append,
    List.append_assoc]

/-- A block starts with its head. -/
theorem exists_text_braced (head : List String) (body : List Line) :
    ∃ rest, Emission.text ((braced head body).flatMap lineSteps)
      = String.join head ++ " \x7b" ++ rest := by
  -- the head and its brace are the fragments of the first line
  have hline : ∀ brace : String, ∀ lines : List Line,
      Emission.text (((⟨0, head ++ [brace]⟩ : Line) :: lines).flatMap lineSteps)
        = String.join head ++ brace ++ ("\n" ++ Emission.text (lines.flatMap lineSteps)) := by
    intro brace lines
    rw [List.flatMap_cons, Emission.text_append, text_line, ← String.append_assoc]
    simp [Line.text]
  unfold braced
  split
  · refine ⟨"\x7d\n", ?_⟩
    rw [hline]
    simp [Emission.text, String.append_assoc]
  · refine ⟨"\n" ++ Emission.text ((body ++ [(⟨0, ["\x7d"]⟩ : Line)]).flatMap lineSteps), ?_⟩
    rw [List.cons_append, hline]

end Layout

/-- The text of a block starts with its keyword and its name. -/
theorem Block.exists_text_eq (b : Block) :
    ∃ rest, b.text = Layout.keyword b.body ++ " " ++ b.name ++ " \x7b" ++ rest := by
  obtain ⟨rest, hrest⟩ :=
    Layout.exists_text_braced [Layout.keyword b.body, " ", b.name] (Layout.bodyLines b.body)
  refine ⟨rest, hrest.trans ?_⟩
  simp [String.append_assoc]

/-- The blocks come last in the text, each set off by a blank line. -/
theorem Document.text_eq (d : Document) :
    d.text = ({ d with blocks := [] } : Document).text
      ++ String.join (d.blocks.map fun b => "\n" ++ b.text) := by
  -- in front of the blocks stand the same sections, with or without blocks
  have hfront : ∃ front, front ≠ [] ∧ Layout.sections d = front ++ d.blocks.map Layout.blockLines ∧
      Layout.sections { d with blocks := [] } = front ++ [] :=
    ⟨_, by simp, rfl, rfl⟩
  obtain ⟨front, hne, hall, hnone⟩ := hfront
  unfold Document.text Document.steps
  rw [hall, hnone, List.append_nil, Layout.sectionSteps_append hne, Emission.text_append]
  congr 1
  -- on the blocks, each behind a blank line
  induction d.blocks with
  | nil => rfl
  | cons b rest ih =>
    rw [List.map_cons, List.flatMap_cons, Emission.text_append, ih, List.map_cons,
      String.join_cons, Emission.text_cons]
    rfl

/-- **Blocks whose names pass the check ascend strictly.** -/
theorem Schema.blocks_ascend {schema : Schema} (h : schema.checkNames = .ok ()) :
    schema.document.blocks.Pairwise fun a b => a.name < b.name := by
  have hnodup := (map_name_blocks schema).nodup_iff.2 (nodup_blockNames h)
  exact Sequence.sortBy_ascends _ (((Sequence.sortBy_perm _ _).map _).nodup_iff.1 hnodup)

/-! ## §3. The messages of methods. -/

/-- A message stays what it is when an entry is added behind it. -/
theorem Pool.entry_message_push (p : Pool) (name : String) (fields : List MessageField)
    (e : Entry) : ((p.message name fields).2.push e).2.entry (p.message name fields).1
      = .definition (.message name fields) := by
  have hentry : (p.message name fields).2.entry (p.message name fields).1
      = .definition (.message name fields) := Pool.entry_push p _
  have hg := Pool.Grows.push (p.message name fields).2 e
  rw [hg.entry_of_ne_any (by simp [hentry]), hentry]

namespace Source

open Conversion

variable {s : Source} {p q : Pool}

/-- A method adds a request that is named after it. -/
theorem exists_request {m : Method} {r : RpcMethod} (h : (s.extractMethod m).Yields p r q) :
    p.Grows q ∧ ∃ i fields, p.size ≤ i ∧ i < q.size ∧ r.request = .entry i ∧
      q.entry r.request = .definition (.message (r.name ++ "Request") fields) := by
  obtain ⟨request, p₁, response, p₂, hrequest, hresponse, rfl, rfl⟩ := yields_extractMethod h
  obtain ⟨_, hrun₁⟩ := requestFields_run hrequest
  obtain ⟨_, hrun₂⟩ := responseFields_run hresponse
  have hgrows : p.Grows p₂ := hrun₁.advances.toGrows.trans hrun₂.advances.toGrows
  -- the response is added behind the request
  have hg := Pool.Grows.push (p₂.message (m.name ++ "Request") request).2
    (.definition (.message (m.name ++ "Response") response))
  refine ⟨hgrows.trans ((Pool.Grows.push p₂ _).trans hg), p₂.size, request, hgrows.size_le, ?_, rfl,
    Pool.entry_message_push p₂ _ _ _⟩
  have hsize : (p₂.message (m.name ++ "Request") request).2.size = p₂.size + 1 :=
    Pool.size_push p₂ _
  have := hg.size_le
  show p₂.size < ((p₂.message (m.name ++ "Request") request).2.push _).2.size
  omega

/-- **No two methods have one request.**  Each is added behind those before it. -/
theorem requests_apart {ms : List Method} {rs : List RpcMethod}
    (h : (ms.mapM s.extractMethod).Yields p rs q) :
    p.Grows q ∧ (rs.map (·.request)).Nodup ∧ ∀ r ∈ rs, ∃ i fields, p.size ≤ i ∧
      r.request = .entry i ∧
      q.entry r.request = .definition (.message (r.name ++ "Request") fields) := by
  -- on the methods; later requests are added at later places
  induction ms generalizing p rs with
  | nil =>
    obtain ⟨rfl, rfl⟩ := yields_mapM_nil.1 h
    exact ⟨Pool.Grows.refl _, List.nodup_nil, fun _ hr => absurd hr List.not_mem_nil⟩
  | cons m ms ih =>
    obtain ⟨r, p₁, rest, hr, hrest, rfl⟩ := yields_mapM_cons.1 h
    obtain ⟨hg₁, i, fields, hle, hlt, hri, hentry⟩ := exists_request hr
    obtain ⟨hg, hnodup, hall⟩ := ih hrest
    refine ⟨hg₁.trans hg, List.nodup_cons.2 ⟨fun hmem => ?_, hnodup⟩, fun a ha => ?_⟩
    · -- two requests at one place would be one
      obtain ⟨b, hb, hbr⟩ := List.mem_map.1 hmem
      obtain ⟨j, _, hj, hbj, _⟩ := hall b hb
      have hij : j = i := EntryId.entry.inj (hbj.symm.trans (hbr.trans hri))
      omega
    · rcases List.mem_cons.1 ha with rfl | ha
      · exact ⟨i, fields, hle, hri, (hg.entry_of_ne_any (by simp [hentry])).trans hentry⟩
      · obtain ⟨j, fields', hj, haj, hentry'⟩ := hall a ha
        exact ⟨j, fields', Nat.le_trans hg₁.size_le hj, haj, hentry'⟩

end Source

/-- Definitions that pass the check are told apart by their names. -/
theorem Schema.eq_of_nameOf {schema : Schema} (h : schema.checkNames = .ok ()) {a b : EntryId}
    {name : String} (ha : a ∈ schema.definitions) (hb : b ∈ schema.definitions)
    (hna : schema.pool.nameOf? a = some name) (hnb : schema.pool.nameOf? b = some name) :
    a = b := by
  have hnodup : (schema.definitions.filterMap schema.pool.nameOf?).Nodup :=
    (List.nodup_append.1 (nodup_blockNames h)).1
  have hpair := List.pairwise_filterMap.1 hnodup
  have hsymm : Std.Symm fun a b : EntryId => ∀ m, schema.pool.nameOf? a = some m →
      ∀ n, schema.pool.nameOf? b = some n → m ≠ n :=
    ⟨fun _ _ h n hn m hm => (h m hm n hn).symm⟩
  -- two different definitions would both contribute the name
  by_contra hab
  exact hpair.forall ha hb hab name hna name hnb rfl

/-- **The methods of a schema have different names.** -/
theorem Package.methods_apart {pkg : Package} {o : CompileOptions} {schema : Schema}
    (h : pkg.compile o = .ok schema) : (schema.methods.map (·.name)).Nodup := by
  obtain ⟨methods, pool, hrun, rfl, hcheck⟩ := extraction_of_compile h
  obtain ⟨_, hnodup, hall⟩ := Source.requests_apart hrun
  have hperm : (schemaOf o methods pool).methods.Perm methods := by
    show (if o.sortMethods then Sequence.sortBy (·.name) methods else methods).Perm methods
    split
    · exact Sequence.sortBy_perm _ _
    · exact List.Perm.refl _
  -- a request is a definition that its method reaches
  have hrequest : ∀ r ∈ (schemaOf o methods pool).methods,
      r.request ∈ (schemaOf o methods pool).definitions ∧
        pool.nameOf? r.request = some (r.name ++ "Request") := by
    intro r hr
    obtain ⟨i, fields, _, _, hentry⟩ := hall r (hperm.mem_iff.1 hr)
    have hself : pool.resolve r.request = r.request :=
      Pool.resolve_of_not_reference (by rw [hentry]; rfl)
    have hroot : r.request ∈ (schemaOf o methods pool).roots :=
      List.mem_flatMap.2 ⟨r, hr, List.mem_cons_self⟩
    have hvisit := Pool.root_mem_visitOrder (p := pool) hroot
    rw [hself] at hvisit
    have hdef : (pool.entry r.request).isDefinition = true := by
      rw [hentry]
      rfl
    refine ⟨Pool.mem_reachable_iff.2 ⟨hvisit, hdef⟩, ?_⟩
    rw [Pool.nameOf?, Pool.resolved, hself, hentry]
    rfl
  have happart : ((schemaOf o methods pool).methods.map (·.request)).Nodup :=
    (hperm.map _).nodup_iff.2 hnodup
  refine List.pairwise_map.2 ((List.pairwise_map.1 happart).imp_of_mem ?_)
  intro a b ha hb hne hname
  obtain ⟨hda, hna⟩ := hrequest a ha
  obtain ⟨hdb, hnb⟩ := hrequest b hb
  rw [hname] at hna
  exact hne (Schema.eq_of_nameOf hcheck hda hdb hna hnb)

/-- **The name check is exact, and it orders the text.**

It accepts a schema exactly if no two blocks of its document share a name.  What it reports
otherwise is the first name, definitions before wrappers, that stands in the list before.  In the
text of a schema that compiles the blocks come last, each set off by a blank line and headed by its
name; their names ascend strictly, and the names of the methods are different. -/
theorem name_check_exact (schema : Schema) :
    (schema.checkNames = .ok () ↔ (schema.document.blocks.map (·.name)).Nodup) ∧
    (∀ e, schema.checkNames = .error e ↔
      ∃ front name back,
        schema.definitions.filterMap schema.pool.nameOf?
          ++ (schema.pool.wrappers schema.definitions).map (·.name) = front ++ name :: back ∧
        front.Nodup ∧ name ∈ front ∧ e = .duplicateTypeName name) ∧
    ∀ (pkg : Package) (o : CompileOptions), pkg.compile o = .ok schema →
      schema.text = ({ schema.document with blocks := [] } : Document).text
        ++ String.join (schema.document.blocks.map fun b => "\n" ++ b.text) ∧
      (∀ b ∈ schema.document.blocks,
        ∃ rest, b.text = Layout.keyword b.body ++ " " ++ b.name ++ " \x7b" ++ rest) ∧
      (schema.document.blocks.Pairwise fun a b => a.name < b.name) ∧
      (schema.methods.map (·.name)).Nodup := by
  refine ⟨Schema.checkNames_eq_ok_iff.trans (Schema.map_name_blocks schema).nodup_iff.symm,
    fun _ => Schema.checkNames_eq_error_iff, fun pkg o h => ?_⟩
  -- a schema that compiles has passed the check
  obtain ⟨_, _, _, _, hcheck⟩ := Package.extraction_of_compile h
  exact ⟨Document.text_eq _, fun b _ => b.exists_text_eq, Schema.blocks_ascend hcheck,
    Package.methods_apart h⟩

/-- The blocks of a schema with a wrapper, an enum and an interface. -/
theorem name_check_exact_board :
    ∃ pkg schema, boardManifest.build = .ok pkg ∧ pkg.compile boardOptions = .ok schema ∧
      schema.document.blocks.map (·.name) =
        ["Color", "DrawRequest", "DrawResponse", "Shape", "Square", "StringList"] ∧
      (schema.document.blocks.Pairwise fun a b => a.name < b.name) ∧
      (schema.methods.map (·.name)).Nodup := by
  have hcompile : ((boardManifest.build.toOption.bind fun pkg =>
      (pkg.compile boardOptions).toOption).any fun schema =>
        decide (schema.document.blocks.map (·.name) =
          ["Color", "DrawRequest", "DrawResponse", "Shape", "Square", "StringList"])) = true := by
    decide +kernel
  obtain ⟨schema, hschema, hnames⟩ := (Option.any_eq_true _ _).1 hcompile
  obtain ⟨pkg, hpkg, hok⟩ := Option.bind_eq_some_iff.1 hschema
  obtain ⟨_, _, hascend, hmethods⟩ :=
    (name_check_exact schema).2.2 pkg boardOptions (eq_ok_of_toOption hok)
  exact ⟨pkg, schema, eq_ok_of_toOption hpkg, eq_ok_of_toOption hok, of_decide_eq_true hnames,
    hascend, hmethods⟩

end RpcSchema
