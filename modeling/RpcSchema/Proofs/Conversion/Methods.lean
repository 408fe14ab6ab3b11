/-
  RpcSchema.Proofs.Conversion.Methods
  ───────────────────────────────────
  **AN EXTRACTION DESCRIBES EACH METHOD, AND NOTHING ELSE.**

  A method becomes two messages.  The fields of the one are its parameters,
  without a variadic last one, and the fields of the other its results, each
  under the name it has in the source or under a number; the type of a
  field is what its native type converts to from then on.  Both messages
  are new, and nothing else is ever converted to them.

  What was called on the converter before does not matter, and neither
  does whether it failed.

  Main statements: `extracted_of_extractMethod`, `extracted_of_mapM` (one
  method and all of them) and `methods_extracted_exactly`.
-/
import RpcSchema.Proofs.Conversion.Calls
import RpcSchema.Proofs.Manifest.Freezing

namespace RpcSchema

/-! ## §1. What fields are called. -/

/-- The name that a parameter or result has in the source, unless it is missing or blank. -/
def Var.sourceName? (v : Var) : Option String :=
  v.name.filter fun name => name ≠ "" ∧ name ≠ "_"

/-- The name of a field that has none in the source, at a position counted from zero. -/
def numberedField (position : Nat) : String :=
  "Field" ++ toString (position + 1)

/-- What the field of a parameter is called. -/
def paramLabel (v : Var) (position : Nat) : String :=
  v.sourceName?.getD (numberedField position)

/-- What the field of a result is called, of `count` results. -/
def resultLabel (count : Nat) (v : Var) (position : Nat) : String :=
  if position + 1 = count ∧ v.type = .error then "Error" else paramLabel v position

/-- The name of a field is the label of the variable. -/
theorem fieldName_eq (v : Var) (position : Nat) : fieldName v position = paramLabel v position := by
  unfold fieldName paramLabel Var.sourceName?
  cases v.name with
  | none => rfl
  | some name =>
    by_cases hblank : name = "" ∨ name = "_"
    · rcases hblank with rfl | rfl <;> rfl
    · obtain ⟨hempty, hblank⟩ := not_or.1 hblank
      simp [hempty, hblank, Option.filter]

/-! ## §2. The messages of a method. -/

namespace Source

open Conversion

variable {s : Source} {p q r : Pool} {n : NativeId} {t id : EntryId}

variable (s) in
/-- From `p` on the native `n` converts to `t`, which changes nothing any more. -/
def Repeats (p : Pool) (n : NativeId) (t : EntryId) : Prop :=
  ∀ r, p.Grows r → (s.convert n).Yields r t r

theorem Repeats.mono (hg : p.Grows q) (h : s.Repeats p n t) : s.Repeats q n t :=
  fun r hr => h r (hg.trans hr)

/-- The entry `id` is a message of the given name, with one field for each of `vars`: it is called
as the label says, and its type and that of the variable are related by `R`. -/
def MessageOf (R : NativeId → EntryId → Prop) (p : Pool) (name : String) (label : Var → Nat → String)
    (vars : List Var) (id : EntryId) : Prop :=
  ∃ fields, p.entry id = .definition (.message name fields) ∧
    List.Forall₂ (fun (x : Var × Nat) f => f.name = label x.1 x.2 ∧ R x.1.type f.type)
      vars.zipIdx fields

section MessageOf

variable {R R' : NativeId → EntryId → Prop} {name : String} {label : Var → Nat → String}
  {vars : List Var}

/-- A message keeps its fields while the pool grows. -/
theorem MessageOf.mono (hg : p.Grows q) (hR : ∀ n t, R n t → R' n t)
    (h : MessageOf R p name label vars id) : MessageOf R' q name label vars id := by
  obtain ⟨fields, hid, hfields⟩ := h
  refine ⟨fields, (hg.entry_of_ne_any (by simp [hid])).trans hid, hfields.imp ?_⟩
  exact fun _ _ hf => ⟨hf.1, hR _ _ hf.2⟩

theorem MessageOf.has (h : MessageOf R p name label vars id) : p.Has id := by
  obtain ⟨fields, hid, _⟩ := h
  exact Pool.has_of_entry_ne_any (by simp [hid])

end MessageOf

/-- **Fields are converted one after the other.**  What converted for one of them converts so
again. -/
theorem fields_of_yields {l : List (Var × Nat)} {place : Var × Nat → Place}
    {label : Var × Nat → String} {fields : List MessageField} (hp : AtRest s.Grounded p)
    (h : (l.mapM fun a : Var × Nat => do
      return (⟨label a, ← (s.convert a.1.type).within (place a)⟩ : MessageField)).Yields
        p fields q) :
    AtRest s.Grounded q ∧ p.Grows q ∧
      List.Forall₂ (fun a f => f.name = label a ∧ s.Repeats q a.1.type f.type) l fields := by
  -- on the variables; the first field is converted before the others
  induction l generalizing p fields with
  | nil =>
    obtain ⟨rfl, rfl⟩ := yields_mapM_nil.1 h
    exact ⟨hp, Pool.Grows.refl _, .nil⟩
  | cons a l ih =>
    obtain ⟨f, p₁, rest, hfirst, hrest, rfl⟩ := yields_mapM_cons.1 h
    obtain ⟨t, p₁', hconvert, hpure⟩ := yields_bind.1 hfirst
    obtain ⟨rfl, rfl⟩ := yields_pure.1 hpure
    have hconvert := yields_within.1 hconvert
    have hp₁ := (s.stable_grounded.keeps_convert _).of_yields hconvert hp
    obtain ⟨met, hrun⟩ := converts_of_convert hconvert
    obtain ⟨hq, hg, hfields⟩ := ih hp₁ hrest
    -- in every later pool the conversion repeats its result
    exact ⟨hq, hrun.advances.toGrows.trans hg,
      .cons ⟨rfl, fun _ hr => yields_again hp.ended hconvert (hg.trans hr)⟩ hfields⟩

variable (s) in
/-- Between `p` and `q` the method `m` became `r`. -/
structure Extracted (p q : Pool) (m : Method) (r : RpcMethod) : Prop where
  name : r.name = m.name
  request : MessageOf (s.Repeats q) q (m.name ++ "Request") fieldName m.signature.requestParams
    r.request
  response : MessageOf (s.Repeats q) q (m.name ++ "Response")
    (s.resultName m.signature.results.length) m.signature.results r.response
  new : ∀ x ∈ [r.request, r.response], ¬ p.Has x ∧ AtRest (s.SetApart x) q

/-- What became of a method remains so. -/
theorem Extracted.mono {p' q' : Pool} {m : Method} {r : RpcMethod} (h : s.Extracted p q m r)
    (hp : p'.Grows p) (hq : q.Grows q')
    (hkeep : ∀ x, AtRest (s.SetApart x) q → AtRest (s.SetApart x) q') : s.Extracted p' q' m r where
  name := h.name
  request := h.request.mono hq fun _ _ => Repeats.mono hq
  response := h.response.mono hq fun _ _ => Repeats.mono hq
  new x hx := ⟨fun hhas => (h.new x hx).1 (hp.has hhas), hkeep x (h.new x hx).2⟩

variable (s) in
/-- The pool `q` is `p` with one more message, which nothing is converted to. -/
structure AddsMessage (p : Pool) (name : String) (fields : List MessageField) (id : EntryId)
    (q : Pool) : Prop where
  grows : p.Grows q
  new : ¬ p.Has id
  entry : q.entry id = .definition (.message name fields)
  rest : AtRest s.Grounded q
  apart : AtRest (s.SetApart id) q
  others : ∀ x, AtRest (s.SetApart x) p → AtRest (s.SetApart x) q

/-- **What adding one message does to the pool.**  Nothing that was there changes, and the
message has exactly the fields given. -/
theorem addsMessage (hp : AtRest s.Grounded p) (name : String) (fields : List MessageField) :
    s.AddsMessage p name fields (p.message name fields).1 (p.message name fields).2 where
  grows := Pool.Grows.push p _
  new := p.not_has_push _
  entry := Pool.entry_push p _
  rest := ⟨hp.ended, hp.holds.define _⟩
  apart := ⟨hp.ended, hp.holds.setApart_message name fields⟩
  others x hx := ⟨hx.ended, (s.lasting_setApart x).message name fields hx.holds⟩

/-- **What becomes of one method.** -/
theorem extracted_of_extractMethod {m : Method} {r : RpcMethod} (hp : AtRest s.Grounded p)
    (h : (s.extractMethod m).Yields p r q) :
    AtRest s.Grounded q ∧ p.Grows q ∧ s.Extracted p q m r ∧ [r.request, r.response].Nodup := by
  obtain ⟨request, p₁, response, p₂, hrequest, hresponse, rfl, rfl⟩ := yields_extractMethod h
  obtain ⟨hp₁, hg₁, hfields₁⟩ := fields_of_yields hp hrequest
  obtain ⟨hp₂, hg₂, hfields₂⟩ := fields_of_yields hp₁ hresponse
  -- then the request is added, and behind it the response
  have h₃ := addsMessage hp₂ (m.name ++ "Request") request
  generalize p₂.message (m.name ++ "Request") request = added at h₃ ⊢
  obtain ⟨a, p₃⟩ := added
  have h₄ := addsMessage h₃.rest (m.name ++ "Response") response
  generalize p₃.message (m.name ++ "Response") response = added at h₄ ⊢
  obtain ⟨b, p₄⟩ := added
  dsimp only at h₃ h₄ ⊢
  have hg₁₂ : p.Grows p₂ := hg₁.trans hg₂
  have hg₂₄ : p₂.Grows p₄ := h₃.grows.trans h₄.grows
  have hentry : p₄.entry a = .definition (.message (m.name ++ "Request") request) :=
    (h₄.grows.entry_of_ne_any (by simp [h₃.entry])).trans h₃.entry
  refine ⟨h₄.rest, hg₁₂.trans hg₂₄, ⟨rfl, ⟨request, hentry, ?_⟩, ⟨response, h₄.entry, ?_⟩, ?_⟩, ?_⟩
  · exact hfields₁.imp fun _ _ hf => ⟨hf.1, hf.2.mono (hg₂.trans hg₂₄)⟩
  · exact hfields₂.imp fun _ _ hf => ⟨hf.1, hf.2.mono hg₂₄⟩
  · intro x hx
    rcases List.mem_cons.1 hx with rfl | hx
    · exact ⟨fun hhas => h₃.new (hg₁₂.has hhas), h₄.others _ h₃.apart⟩
    · rw [List.mem_singleton.1 hx]
      exact ⟨fun hhas => h₄.new ((hg₁₂.trans h₃.grows).has hhas), h₄.apart⟩
  · have hne : a ≠ b := by
      rintro rfl
      exact h₄.new (Pool.has_of_entry_ne_any (by simp [h₃.entry]))
    simpa using hne

/-- **What becomes of all methods.**  By induction on them: what became of one remains so, and its
messages are there before the next. -/
theorem extracted_of_mapM {ms : List Method} {rs : List RpcMethod} (hp : AtRest s.Grounded p)
    (h : (ms.mapM s.extractMethod).Yields p rs q) :
    p.Grows q ∧ List.Forall₂ (s.Extracted p q) ms rs ∧
      (rs.flatMap fun r => [r.request, r.response]).Nodup := by
  induction ms generalizing p rs with
  | nil =>
    obtain ⟨rfl, rfl⟩ := yields_mapM_nil.1 h
    exact ⟨Pool.Grows.refl _, .nil, List.nodup_nil⟩
  | cons m ms ih =>
    obtain ⟨r, p₁, rest, hr, hrest, rfl⟩ := yields_mapM_cons.1 h
    obtain ⟨hp₁, hg₁, hfirst, hpair⟩ := extracted_of_extractMethod hp hr
    obtain ⟨hg, hall, hnodup⟩ := ih hp₁ hrest
    have hkeep : ∀ x, AtRest (s.SetApart x) p₁ → AtRest (s.SetApart x) q := fun x hx =>
      (Keeps.mapM (s.lasting_setApart x).keeps_extractMethod ms).of_yields hrest hx
    refine ⟨hg₁.trans hg, .cons (hfirst.mono (Pool.Grows.refl p) hg hkeep) ?_, ?_⟩
    · exact hall.imp fun _ _ hx => hx.mono hg₁ (Pool.Grows.refl q) fun _ h => h
    · rw [List.flatMap_cons]
      refine List.nodup_append.2 ⟨hpair, hnodup, fun x hx y hy hxy => ?_⟩
      -- the messages of the first method are there when the others are added
      have hhas : p₁.Has x := by
        rcases List.mem_cons.1 hx with rfl | hx
        · exact hfirst.request.has
        · exact List.mem_singleton.1 hx ▸ hfirst.response.has
      obtain ⟨r', hr', hy⟩ := List.mem_flatMap.1 hy
      obtain ⟨_, _, hlater⟩ := exists_left_of_mem hall hr'
      exact (hlater.new y hy).1 (hxy ▸ hhas)

variable (s) in
/-- Whatever is called from `q` on, the native `n` converts to `t`, and that changes nothing. -/
def ConvertsTo (q : Pool) (n : NativeId) (t : EntryId) : Prop :=
  ∀ later : List Call, (s.convert n).Yields (s.after q later) t (s.after q later)

theorem Repeats.convertsTo (h : s.Repeats q n t) : s.ConvertsTo q n t :=
  fun later => h _ (s.advances_after q later).toGrows

variable (s) in
/-- The method `r` of a service describes the method `m`: it has its name, and messages for its
parameters and results that are no entries of `p`, and that nothing converts to from `q` on. -/
structure Describes (p q : Pool) (m : Method) (r : RpcMethod) : Prop where
  name : r.name = m.name
  request : MessageOf (s.ConvertsTo q) q (m.name ++ "Request") paramLabel
    (if m.signature.variadic then m.signature.params.dropLast else m.signature.params) r.request
  response : MessageOf (s.ConvertsTo q) q (m.name ++ "Response")
    (resultLabel m.signature.results.length) m.signature.results r.response
  new : ∀ x ∈ [r.request, r.response], ¬ p.Has x ∧
    ∀ later n t q', (s.convert n).Yields (s.after q later) t q' → t ≠ x

/-- A method that was extracted is described by its messages. -/
theorem Extracted.describes (herror : ∀ n, s.types.isError n = true ↔ n = .error) {m : Method}
    {r : RpcMethod} (h : s.Extracted p q m r) : s.Describes p q m r where
  name := h.name
  request := by
    have hlabel : fieldName = paramLabel := funext fun v => funext (fieldName_eq v)
    have hrequest := h.request.mono (Pool.Grows.refl q) fun _ _ => Repeats.convertsTo
    rwa [hlabel] at hrequest
  response := by
    -- the error is told by its id, not by its name
    have hlabel : s.resultName m.signature.results.length
        = resultLabel m.signature.results.length := by
      funext v i
      simp only [resultName, resultLabel, fieldName_eq, errorField, Bool.and_eq_true,
        decide_eq_true_eq, herror]
    have hresponse := h.response.mono (Pool.Grows.refl q) fun _ _ => Repeats.convertsTo
    rwa [hlabel] at hresponse
  new x hx := ⟨(h.new x hx).1, fun later _ _ _ ht => SetApart.ne_of_yields (h.new x hx).2 later ht⟩

end Source

/-! ## §3. Packages. -/

/-- In a package the builtin `error` is the error type, and nothing else is. -/
theorem Manifest.isError_iff {m : Manifest} {pkg : Package} (h : m.build = .ok pkg)
    (n : NativeId) : pkg.types.isError n = true ↔ n = .error := by
  refine ⟨Source.eq_error_of_isError (Manifest.build_formed h), ?_⟩
  rintro rfl
  obtain ⟨d, hrun, hfinish⟩ := Manifest.exists_draft h
  obtain ⟨_, htidy, _⟩ := Building.tidy_manifest hrun
  obtain ⟨_, hfrozen, _⟩ := Draft.frozen_of_finish htidy hfinish
  -- neither the type nor its shape is declared
  have hname : pkg.types.kind .error = Universe.predeclared.kind .error := by
    rw [hfrozen.kept _ fun hmem => htidy.ne_error hmem rfl]
    exact htidy.builtin 18 (by decide)
  have hkind : d.types.kind Universe.errorShape = Universe.predeclared.kind Universe.errorShape :=
    htidy.builtin 20 (by decide)
  have hshape : pkg.types.kind Universe.errorShape
      = Universe.predeclared.kind Universe.errorShape := by
    refine (hfrozen.kept _ fun hmem => ?_).trans hkind
    obtain ⟨x, hx, hxn⟩ := List.mem_map.1 hmem
    have hnamed := htidy.declared x hx
    rw [hxn, hkind] at hnamed
    cases hnamed
  have herror : pkg.types.kind .error = .named ⟨"error", none, Universe.errorShape, []⟩ :=
    hname.trans rfl
  obtain ⟨asked, hasked⟩ : ∃ asked, Universe.predeclared.kind Universe.errorShape
      = .interface asked := ⟨_, rfl⟩
  simp [Universe.isError, herror, hshape, hasked]

namespace Package

variable {pkg : Package} {o : CompileOptions} {schema : Schema}

/-- A compilation extracts the methods of the entrypoint, and stores them sorted if asked to. -/
theorem methods_of_compile (h : pkg.compile o = .ok schema) :
    ∃ entrypoint rs, pkg.lookup? o.entrypoint = some entrypoint ∧
      ((pkg.source o.fieldless).extractMethods entrypoint o.excluded).Yields Pool.start rs
        schema.pool ∧
      schema.methods = if o.sortMethods then Sequence.sortBy (·.name) rs else rs := by
  obtain ⟨rs, pool, hrun, hschema, _⟩ := extraction_of_compile h
  cases hlook : pkg.lookup? o.entrypoint with
  -- without an entry point nothing compiles
  | none =>
    unfold compile at h
    rw [hlook] at h
    cases h
  | some entrypoint =>
    unfold serviceMethods at hrun
    rw [hlook] at hrun
    exact ⟨entrypoint, rs, rfl, hschema ▸ hrun, by rw [hschema]; rfl⟩

end Package

/-- **Extraction describes the exported methods of the entrypoint, each once and in order.**

For every package that a manifest describes, after any calls and with any names excluded: if the
extraction succeeds, its methods describe the exported ones that are not excluded, and no two of
their messages are the same.  A compilation stores this list as it is, or sorted by name with
methods of one name in their order. -/
theorem methods_extracted_exactly {m : Manifest} {pkg : Package} (h : m.build = .ok pkg) :
    (∀ (fieldless : List String) (calls : List Call) (entrypoint : NativeId)
        (excluded : List String) (rs : List RpcMethod) (q : Pool),
      ((pkg.source fieldless).extractMethods entrypoint excluded).Yields
        ((pkg.source fieldless).after Pool.start calls) rs q →
      ∃ t, pkg.types.Behind entrypoint t ∧
        List.Forall₂
          ((pkg.source fieldless).Describes ((pkg.source fieldless).after Pool.start calls) q)
          (((pkg.types.named? t).elim [] (·.methods)).filter fun m =>
            m.isExported && !excluded.contains m.name) rs ∧
        (rs.flatMap fun r => [r.request, r.response]).Nodup) ∧
    ∀ (o : CompileOptions) (schema : Schema), pkg.compile o = .ok schema →
      ∃ entrypoint rs, pkg.lookup? o.entrypoint = some entrypoint ∧
        ((pkg.source o.fieldless).extractMethods entrypoint o.excluded).Yields Pool.start rs
          schema.pool ∧
        (o.sortMethods = false → schema.methods = rs) ∧
        (o.sortMethods = true → schema.methods.Perm rs ∧
          (schema.methods.Pairwise fun a b => a.name ≤ b.name) ∧
          ∀ name, schema.methods.filter (fun r => r.name = name)
            = rs.filter fun r => r.name = name) := by
  refine ⟨fun fieldless calls entrypoint excluded rs q hrun => ?_, fun o schema hcompile => ?_⟩
  · have hrest := (pkg.source fieldless).lasting_grounded.after calls
      (Source.atRest_start Source.grounded_start)
    obtain ⟨_, hall, hnodup⟩ := Source.extracted_of_mapM hrest hrun
    refine ⟨pkg.types.deref entrypoint, (Manifest.build_formed h).behind_deref entrypoint, ?_, hnodup⟩
    -- exported and not left out: the two tests are made one after the other
    have hmethods : ((pkg.types.named? (pkg.types.deref entrypoint)).elim [] (·.methods)).filter
          (fun m => m.isExported && !excluded.contains m.name)
        = (pkg.exportedMethods entrypoint).filter fun m => !excluded.contains m.name := by
      unfold Package.exportedMethods
      cases pkg.types.named? (pkg.types.deref entrypoint) with
      | none => rfl
      | some decl =>
        rw [List.filter_filter]
        exact List.filter_congr fun _ _ => Bool.and_comm _ _
    rw [hmethods]
    exact hall.imp fun _ _ hx => hx.describes (Manifest.isError_iff h)
  · obtain ⟨entrypoint, rs, hlook, hrun, hmethods⟩ := Package.methods_of_compile hcompile
    refine ⟨entrypoint, rs, hlook, hrun, fun hunsorted => ?_, fun hsorted => ?_⟩
    · rw [hmethods, hunsorted]
      rfl
    · -- the sort keeps the order of methods that have one name
      rw [hmethods, if_pos hsorted]
      exact ⟨Sequence.sortBy_perm _ _, Sequence.sortBy_sorted _ _,
        fun name => Sequence.filter_sortBy (·.name) rs name⟩

/-! A desk with a variadic method, blank names, errors in both positions and methods to skip. -/

/-- An interface with a variable parameter list, a trailing error and a method that is left out. -/
def deskManifest : Manifest where
  path := "example.com/desk"
  name := none
  types :=
    [⟨"Note", .struct [⟨some "Next", "*Note"⟩, ⟨some "Text", "string"⟩], []⟩,
      ⟨"Odd", .struct [⟨some "Note", "Note"⟩, ⟨some "Bad", "complex128"⟩], []⟩,
      ⟨"Desk", .struct [],
        [⟨"Write", [⟨some "note", "*Note"⟩, ⟨some "_", "string"⟩, ⟨some "tags", "...string"⟩],
          [⟨none, "Note"⟩, ⟨none, "error"⟩]⟩,
          ⟨"hide", [], []⟩, ⟨"Close", [], []⟩,
          ⟨"Check", [⟨none, "[]Note"⟩], [⟨some "err", "error"⟩, ⟨some "count", "int"⟩]⟩]⟩]
  constants := []

/-- The options under which the interface of `deskManifest` is compiled, with sorted methods. -/
def deskOptions : CompileOptions where
  package := "example.com/desk"
  entrypoint := "Desk"
  excluded := ["Close"]
  fieldless := []
  service := none
  protoPackage := none
  options := .empty
  sortMethods := true

/-- The fields of a message. -/
def Pool.fieldNames (p : Pool) (id : EntryId) : List String :=
  match p.entry id with
  | .definition (.message _ fields) => fields.map (·.name)
  | _ => []

/-- After a conversion of `Odd`, which fails when `Note` is finished, two methods are extracted. -/
theorem methods_extracted_exactly_desk :
    ∃ pkg rs q t schema, deskManifest.build = .ok pkg ∧
      ((pkg.source []).extractMethods (.entry 23) ["Close"]).Yields
        ((pkg.source []).after Pool.start [.convert (.entry 22)]) rs q ∧
      rs.map (fun r => (r.name, q.fieldNames r.request, q.fieldNames r.response)) =
        [("Write", ["note", "Field2"], ["Field1", "Error"]),
          ("Check", ["Field1"], ["err", "count"])] ∧
      pkg.types.Behind (.entry 23) t ∧
      List.Forall₂
        ((pkg.source []).Describes ((pkg.source []).after Pool.start [.convert (.entry 22)]) q)
        (((pkg.types.named? t).elim [] (·.methods)).filter fun m =>
          m.isExported && !(["Close"].contains m.name)) rs ∧
      pkg.compile deskOptions = .ok schema ∧ schema.methods.map (·.name) = ["Check", "Write"] ∧
      schema.methods.Pairwise fun a b => a.name ≤ b.name := by
  -- all that can be computed is computed in one go
  have hbuild : (deskManifest.build.toOption.any fun pkg =>
      let p := (pkg.source []).after Pool.start [.convert (.entry 22)]
      let extracted := ((pkg.source []).extractMethods (.entry 23) ["Close"]).outcome p
      extracted.1.toOption.any (fun rs => decide
        (rs.map (fun r => (r.name, extracted.2.fieldNames r.request,
            extracted.2.fieldNames r.response)) =
          [("Write", ["note", "Field2"], ["Field1", "Error"]),
            ("Check", ["Field1"], ["err", "count"])])) &&
        (pkg.compile deskOptions).toOption.any fun schema =>
          decide (schema.methods.map (·.name) = ["Check", "Write"])) = true := by
    decide +kernel
  obtain ⟨pkg, hpkg, hboth⟩ := (Option.any_eq_true _ _).1 hbuild
  obtain ⟨hextracts, hcompiles⟩ := Bool.and_eq_true_iff.1 hboth
  obtain ⟨rs, hrs, hnames⟩ := (Option.any_eq_true _ _).1 hextracts
  obtain ⟨schema, hschema, hsorted⟩ := (Option.any_eq_true _ _).1 hcompiles
  have hpkg := eq_ok_of_toOption hpkg
  have hschema := eq_ok_of_toOption hschema
  have hrun := Conversion.yields_iff_toOption.2 ⟨hrs, rfl⟩
  obtain ⟨hextraction, hcompilation⟩ := methods_extracted_exactly hpkg
  obtain ⟨t, ht, hall, _⟩ := hextraction [] _ _ _ rs _ hrun
  obtain ⟨_, _, _, _, _, hascend⟩ := hcompilation deskOptions schema hschema
  exact ⟨pkg, rs, _, t, schema, hpkg, hrun, of_decide_eq_true hnames, ht, hall, hschema,
    of_decide_eq_true hsorted, (hascend rfl).2.1⟩

end RpcSchema
