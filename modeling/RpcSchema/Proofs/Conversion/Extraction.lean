/-
  RpcSchema.Proofs.Conversion.Extraction
  ──────────────────────────────────────
  **THE MESSAGES OF A SERVICE STAND FOR ITS SIGNATURES.**

  Between the conversions of its parameters and results a method adds its
  request and its response.  No conversion is under way then, so the pool
  stays settled from one method to the next.

  Main statements: `extractMethods_run` and `compile_run` (what a
  compilation that succeeds has done).
-/
import RpcSchema.Conversion.Compile
import RpcSchema.Proofs.Conversion.Image

namespace RpcSchema

namespace Source

open Conversion

variable (s : Source)

/-- The entry `id` is a message whose field types stand for the given natives. -/
def Carries (p : Pool) (id : EntryId) (types : List NativeId) : Prop :=
  ∃ name fields, p.entry id = .definition (.message name fields) ∧
    List.Forall₂ (s.Stands p) types (fields.map (·.type))

/-- The request and the response of a method stand for its parameters and results. -/
def Serves (p : Pool) (m : Method) (r : RpcMethod) : Prop :=
  s.Carries p r.request (m.signature.requestParams.map (·.type)) ∧
    s.Carries p r.response (m.signature.results.map (·.type))

variable {s} {p q : Pool}

/-- A message carries its types while the pool grows. -/
theorem Carries.mono (hg : p.Grows q) {id : EntryId} {types : List NativeId}
    (h : s.Carries p id types) : s.Carries q id types := by
  obtain ⟨name, fields, hid, hfields⟩ := h
  refine ⟨name, fields, ?_, forall₂_stands_mono hg hfields⟩
  rw [hg.entry_of_ne_any (by simp [hid]), hid]

theorem Serves.mono (hg : p.Grows q) {m : Method} {r : RpcMethod} (h : s.Serves p m r) :
    s.Serves q m r :=
  ⟨h.1.mono hg, h.2.mono hg⟩

/-- A definition may be added while no conversion is under way. -/
theorem Settled.define (hp : s.Settled p) (d : Definition) : s.Settled (p.define d).2 :=
  ⟨hp.toSound.define d, hp.ended⟩

/-! ## §1. The fields of a request or response. -/

/-- The types of fields made of names and ids are the ids. -/
theorem map_type_zipWith {α : Type} (name : α → String) {l : List α} {ids : List EntryId}
    (h : ids.length = l.length) :
    (List.zipWith (fun a id => (⟨name a, id⟩ : MessageField)) l ids).map (·.type) = ids := by
  induction l generalizing ids with
  | nil =>
    rw [List.length_eq_zero_iff.1 h]
    rfl
  | cons a l ih =>
    obtain ⟨id, rest, rfl⟩ := List.exists_cons_of_length_eq_add_one h
    rw [List.zipWith_cons_cons, List.map_cons, ih (by simpa using h)]

/-- Fields that are converted from left to right are a run. -/
theorem fields_run {l : List (Var × Nat)} (place : Var × Nat → Place) (name : Var × Nat → String)
    {fields : List MessageField}
    (h : (l.mapM fun a : Var × Nat => do
      return (⟨name a, ← (s.convert a.1.type).within (place a)⟩ : MessageField)).Yields
        p fields q) :
    ∃ met, s.Converts (l.map (·.1.type)) p met (fields.map (·.type)) q := by
  rw [mapM_combine (fun a : Var × Nat => (s.convert a.1.type).within (place a))
    (fun a id => (⟨name a, id⟩ : MessageField))] at h
  obtain ⟨ids, r, hids, hpure⟩ := yields_bind.1 h
  obtain ⟨rfl, rfl⟩ := yields_pure.1 hpure
  -- a field is its conversion at a place, and then a name
  have hvisit : ((l.map fun a => (some (place a), a.1.type)).mapM (visit s.convert)).Yields
      p ids q := by
    rw [List.mapM_map]
    exact hids
  rw [yields_mapM_visit, List.map_map] at hvisit
  obtain ⟨met, hrun⟩ := converts_of_yields s.budget _ p ids q hvisit
  refine ⟨met, ?_⟩
  rw [map_type_zipWith name (by simpa using hrun.length_eq)]
  exact hrun

theorem map_type_zipIdx (vars : List Var) :
    vars.zipIdx.map (·.1.type) = vars.map (·.type) := by
  rw [show (fun a : Var × Nat => a.1.type) = Var.type ∘ Prod.fst from rfl, ← List.map_map,
    List.zipIdx_map_fst]

/-- The fields of a request are a run over the types of the parameters. -/
theorem requestFields_run {m : Method} {fields : List MessageField}
    (h : (s.requestFields m).Yields p fields q) :
    ∃ met, s.Converts (m.signature.requestParams.map (·.type)) p met (fields.map (·.type)) q := by
  have hrun := fields_run (fun a => .parameter (a.2 + 1) m.name) (fun a => fieldName a.1 a.2) h
  rwa [map_type_zipIdx] at hrun

/-- The fields of a response are a run over the types of the results. -/
theorem responseFields_run {m : Method} {fields : List MessageField}
    (h : (s.responseFields m).Yields p fields q) :
    ∃ met, s.Converts (m.signature.results.map (·.type)) p met (fields.map (·.type)) q := by
  have hrun := fields_run (fun a => .result (a.2 + 1) m.name)
    (fun a => s.resultName m.signature.results.length a.1 a.2) h
  rwa [map_type_zipIdx] at hrun

/-! ## §2. Methods. -/

/-- A message whose field types stand for some natives carries them. -/
theorem carries_message {types : List NativeId} {fields : List MessageField}
    (h : List.Forall₂ (s.Stands p) types (fields.map (·.type))) (name : String) :
    s.Carries (p.message name fields).2 (p.message name fields).1 types :=
  ⟨name, fields, Pool.entry_push p _, forall₂_stands_mono (Pool.Grows.push p _) h⟩

/-- A method converts its parameters, then its results, and adds both messages behind them. -/
theorem yields_extractMethod {m : Method} {r : RpcMethod}
    (h : (s.extractMethod m).Yields p r q) :
    ∃ request p₁ response p₂, (s.requestFields m).Yields p request p₁ ∧
      (s.responseFields m).Yields p₁ response p₂ ∧
      r = ⟨m.name, (p₂.message (m.name ++ "Request") request).1,
        ((p₂.message (m.name ++ "Request") request).2.message (m.name ++ "Response") response).1⟩ ∧
      q = ((p₂.message (m.name ++ "Request") request).2.message (m.name ++ "Response") response).2 := by
  unfold extractMethod at h
  obtain ⟨request, p₁, hrequest, h₁⟩ := yields_bind.1 h
  obtain ⟨response, p₂, hresponse, h₂⟩ := yields_bind.1 h₁
  -- the two messages are added when all fields are converted
  obtain ⟨a, p₃, hadd, h₃⟩ := yields_bind.1 h₂
  obtain ⟨rfl, rfl⟩ := yields_add.1 hadd
  obtain ⟨b, p₄, hadd', h₄⟩ := yields_bind.1 h₃
  obtain ⟨rfl, rfl⟩ := yields_add.1 hadd'
  obtain ⟨rfl, rfl⟩ := yields_pure.1 h₄
  exact ⟨request, p₁, response, p₂, hrequest, hresponse, rfl, rfl⟩

/-- **A method that is extracted is served**, and the pool stays settled. -/
theorem extractMethod_run {m : Method} {r : RpcMethod}
    (h : (s.extractMethod m).Yields p r q) (hp : s.Settled p) :
    s.Settled q ∧ p.Grows q ∧ s.Serves q m r := by
  obtain ⟨request, p₁, response, p₂, hrequest, hresponse, rfl, rfl⟩ := yields_extractMethod h
  -- both lists of fields are runs, and both messages are added behind them
  obtain ⟨met₁, hrun₁⟩ := requestFields_run hrequest
  obtain ⟨met₂, hrun₂⟩ := responseFields_run hresponse
  -- the request stands already while the response is converted
  have hg : p₁.Grows p₂ := hrun₂.advances.toGrows
  have hg₃ : p₂.Grows (p₂.message (m.name ++ "Request") request).2 := Pool.Grows.push p₂ _
  have hg₄ := Pool.Grows.push (p₂.message (m.name ++ "Request") request).2
    (.definition (.message (m.name ++ "Response") response))
  have hstands₁ : List.Forall₂ (s.Stands p₂) (m.signature.requestParams.map (·.type))
      (request.map (·.type)) := hrun₁.returned.imp fun _ _ ht => ht.stands.mono hg
  have hstands₂ : List.Forall₂ (s.Stands (p₂.message (m.name ++ "Request") request).2)
      (m.signature.results.map (·.type)) (response.map (·.type)) :=
    hrun₂.returned.imp fun _ _ ht => ht.stands.mono hg₃
  have hsettled : s.Settled p₂ := hrun₂.settled (hrun₁.settled hp)
  refine ⟨(hsettled.define _).define _, (hrun₁.advances.toGrows.trans hg).trans (hg₃.trans hg₄),
    ?_, ?_⟩
  · exact (carries_message hstands₁ _).mono hg₄
  · exact carries_message hstands₂ _

/-- **The messages of a service stand for the signatures of its methods.** -/
theorem extractMethods_run {ms : List Method} {rs : List RpcMethod}
    (h : (ms.mapM s.extractMethod).Yields p rs q) (hp : s.Settled p) :
    s.Settled q ∧ p.Grows q ∧ List.Forall₂ (s.Serves q) ms rs := by
  induction ms generalizing p rs with
  | nil =>
    obtain ⟨rfl, rfl⟩ := yields_mapM_nil.1 h
    exact ⟨hp, Pool.Grows.refl _, List.Forall₂.nil⟩
  | cons m ms ih =>
    obtain ⟨r, p₁, rest, hr, hrest, rfl⟩ := yields_mapM_cons.1 h
    obtain ⟨hp₁, hg₁, hserves⟩ := extractMethod_run hr hp
    obtain ⟨hq, hg, hall⟩ := ih hrest hp₁
    -- the first method is still served behind the others
    exact ⟨hq, hg₁.trans hg, List.Forall₂.cons (hserves.mono hg) hall⟩

end Source

/-! ## §3. Compilations. -/

namespace Package

/-- The methods that make up the service that is asked for. -/
def serviceMethods (pkg : Package) (o : CompileOptions) : List Method :=
  match pkg.lookup? o.entrypoint with
  | some entrypoint =>
    (pkg.exportedMethods entrypoint).filter fun m => !o.excluded.contains m.name
  | none => []

variable {pkg : Package} {o : CompileOptions} {schema : Schema}

/-- What a compilation that succeeds went through. -/
theorem extraction_of_compile (h : pkg.compile o = .ok schema) :
    ∃ methods pool,
      ((pkg.serviceMethods o).mapM (pkg.source o.fieldless).extractMethod).Yields
        Pool.start methods pool ∧
      schema = schemaOf o methods pool ∧ schema.checkNames = .ok () := by
  unfold compile at h
  unfold serviceMethods
  cases hl : pkg.lookup? o.entrypoint with
  | none =>
    rw [hl] at h
    cases h
  | some entrypoint =>
    rw [hl] at h
    simp only at h ⊢
    -- the errors of the extraction and of the check on names end the compilation
    rcases hrun : ((pkg.source o.fieldless).extractMethods entrypoint o.excluded).run Pool.start
      with ⟨_ | methods, pool⟩
    · rw [hrun] at h
      cases h
    · rw [hrun] at h
      simp only at h
      cases hcheck : (schemaOf o methods pool).checkNames with
      | error e =>
        rw [hcheck] at h
        cases h
      | ok _ =>
        rw [hcheck] at h
        cases h
        exact ⟨methods, pool, hrun, rfl, hcheck⟩

/-- Sorted or not, the methods of a schema are the same. -/
theorem mem_ordered_iff (o : CompileOptions) (methods : List RpcMethod) (r : RpcMethod) :
    r ∈ (if o.sortMethods then Sequence.sortBy (·.name) methods else methods) ↔ r ∈ methods := by
  split
  · exact Sequence.mem_sortBy
  · exact Iff.rfl

/-- **What a compilation that succeeds has done.**  The pool is settled, and the methods of the
schema are those of the service, in some order. -/
theorem compile_run (h : pkg.compile o = .ok schema) :
    ∃ methods, (pkg.source o.fieldless).Settled schema.pool ∧
      List.Forall₂ ((pkg.source o.fieldless).Serves schema.pool) (pkg.serviceMethods o) methods ∧
      ∀ r, r ∈ schema.methods ↔ r ∈ methods := by
  obtain ⟨methods, pool, hrun, rfl, _⟩ := extraction_of_compile h
  obtain ⟨hsettled, _, hserves⟩ := Source.extractMethods_run hrun Source.settled_start
  exact ⟨methods, hsettled, hserves, mem_ordered_iff o methods⟩

end Package

end RpcSchema
