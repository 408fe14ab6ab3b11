/-
  RpcSchema.Proofs.Manifest.Reading
  ─────────────────────────────────
  **WHAT OUTLASTS THE WALK OVER A MANIFEST.**

  Reading a type expression changes a draft in two ways only: a shape of
  types that are there is interned, or a name of another package is added.
  A property that outlasts both outlasts everything that is read.  Defining
  a type adds two more ways, and they concern that type alone.

  So an invariant of drafts is checked once per primitive step, and holds
  after the whole walk.

  Main statements: `keeps_resolve`, `keeps_type` and `keeps_manifest`.
-/
import RpcSchema.Proofs.Manifest.Walk

namespace RpcSchema.Building

variable {α β : Type}

/-! ## §1. Steps that succeed. -/

/-- Started on `d`, the step succeeds with `a` and leaves `d'`. -/
def Runs (x : Building α) (d : Draft) (a : α) (d' : Draft) : Prop :=
  x.run d = .ok (a, d')

section Runs

variable {d d' : Draft}

theorem runs_pure {a b : α} : Runs (pure a) d b d' ↔ b = a ∧ d' = d := by
  show (Except.ok (a, d) : Except LoadError (α × Draft)) = .ok (b, d') ↔ _
  rw [Except.ok.injEq, Prod.mk.injEq, eq_comm (a := a), eq_comm (a := d)]

theorem not_runs_throw {e : LoadError} {a : α} : ¬ Runs (throw e) d a d' := by
  intro h
  cases h

/-- **A sequence runs if its second step does where the first one led.** -/
theorem runs_bind {x : Building α} {f : α → Building β} {b : β} :
    Runs (x >>= f) d b d' ↔ ∃ a d₁, Runs x d a d₁ ∧ Runs (f a) d₁ b d' := by
  unfold Runs
  rw [StateT.run_bind]
  rcases x.run d with e | ⟨a, d₁⟩
  · -- the first step fails, and so does the sequence
    constructor
    · intro h
      cases h
    · rintro ⟨_, _, h, _⟩
      cases h
  · constructor
    · intro h
      exact ⟨a, d₁, rfl, h⟩
    · rintro ⟨_, _, h, hf⟩
      cases h
      exact hf

theorem runs_get {e : Draft} : Runs get d e d' ↔ e = d ∧ d' = d :=
  runs_pure

theorem runs_modifyGet {f : Draft → α × Draft} {a : α} :
    Runs (modifyGet f) d a d' ↔ f d = (a, d') := by
  show (Except.ok (f d) : Except LoadError (α × Draft)) = .ok (a, d') ↔ _
  rw [Except.ok.injEq]

theorem runs_modify {f : Draft → Draft} {a : PUnit} :
    Runs (modify f) d a d' ↔ d' = f d := by
  refine runs_modifyGet.trans ?_
  rw [Prod.mk.injEq, eq_comm (a := f d)]
  exact and_iff_right rfl

theorem runs_mapM_nil {f : α → Building β} {bs : List β} :
    Runs (([] : List α).mapM f) d bs d' ↔ bs = [] ∧ d' = d := by
  rw [List.mapM_nil]
  exact runs_pure

/-- Along a list the first element goes first. -/
theorem runs_mapM_cons {f : α → Building β} {a : α} {l : List α} {bs : List β} :
    Runs ((a :: l).mapM f) d bs d' ↔
      ∃ b d₁ rest, Runs (f a) d b d₁ ∧ Runs (l.mapM f) d₁ rest d' ∧ bs = b :: rest := by
  rw [List.mapM_cons, runs_bind]
  constructor
  · rintro ⟨b, d₁, hb, h⟩
    obtain ⟨rest, d₂, hrest, h⟩ := runs_bind.1 h
    obtain ⟨rfl, rfl⟩ := runs_pure.1 h
    exact ⟨b, d₁, rest, hb, hrest, rfl⟩
  · rintro ⟨b, d₁, rest, hb, hrest, rfl⟩
    exact ⟨b, d₁, hb, runs_bind.2 ⟨rest, d', hrest, runs_pure.2 ⟨rfl, rfl⟩⟩⟩

theorem runs_forM_nil {f : α → Building PUnit} {u : PUnit} :
    Runs (([] : List α).forM f) d u d' ↔ d' = d :=
  runs_pure.trans (and_iff_right rfl)

/-- and along a list with a first element. -/
theorem runs_forM_cons {f : α → Building PUnit} {a : α} {l : List α} {u : PUnit} :
    Runs ((a :: l).forM f) d u d' ↔ ∃ d₁, Runs (f a) d ⟨⟩ d₁ ∧ Runs (l.forM f) d₁ u d' := by
  show Runs (f a >>= fun _ => l.forM f) d u d' ↔ _
  rw [runs_bind]
  constructor
  · rintro ⟨_, d₁, h, hrest⟩
    exact ⟨d₁, h, hrest⟩
  · rintro ⟨d₁, h, hrest⟩
    exact ⟨_, d₁, h, hrest⟩

end Runs

/-! ## §2. Properties of drafts that steps keep. -/

/-- Started on a well-formed draft with the property `I`, the step leaves one. -/
def Keeps (I : Draft → Prop) (x : Building α) : Prop :=
  Forms I x fun d _ => I d

/-- The property outlasts what reading a type expression does to a draft. -/
structure Outlasts (I : Draft → Prop) : Prop where
  /-- A shape is interned that is made of types that are there. -/
  shape : ∀ {d : Draft} {k : NativeKind}, d.Formed → I d → k.isNamed = false →
    k.shape ≠ .tuple → (∀ m ∈ k.components, d.types.Has m) → I (d.build (·.intern k)).2
  foreign : ∀ {d : Draft} (package name : String), d.Formed → I d → I (d.foreign package name).2

variable {I P : Draft → Prop} {Q R : Draft → α → Prop}

/-- What a step does is one thing. -/
theorem Forms.and {x : Building α} (hQ : Forms P x Q) (hR : Forms P x R) :
    Forms P x fun d a => Q d a ∧ R d a := by
  intro d a d' hd hP hrun
  obtain ⟨hd', hle, hq⟩ := hQ d a d' hd hP hrun
  obtain ⟨_, _, hr⟩ := hR d a d' hd hP hrun
  exact ⟨hd', hle, hq, hr⟩

theorem Forms.weaken {P' : Draft → Prop} {x : Building α} (hx : Forms P x Q)
    (hP : ∀ d, P' d → P d) : Forms P' x Q :=
  fun d a d' hd hPd hrun => hx d a d' hd (hP d hPd) hrun

theorem keeps_pure (a : α) : Keeps I (pure a) :=
  forms_pure fun _ _ h => h

theorem keeps_throw (e : LoadError) : Keeps I (throw e : Building α) :=
  forms_throw e

/-- What the first step leaves besides may be used by the rest. -/
theorem Keeps.bind {x : Building α} {f : α → Building β} (hx : Keeps I x)
    (hQ : Forms (fun _ => True) x Q) (hf : ∀ a, Forms (fun d => Q d a ∧ I d) (f a) fun d _ => I d) :
    Keeps I (x >>= f) :=
  (hQ.any.and hx).bind hf

/-- A sequence of steps that keep the property. -/
theorem Keeps.seq {x : Building α} {f : α → Building β} (hx : Keeps I x)
    (hf : ∀ a, Keeps I (f a)) : Keeps I (x >>= f) :=
  Forms.bind hx fun a => hf a

theorem keeps_get : Keeps I get := by
  intro d a d' hd hI hrun
  cases hrun
  exact ⟨hd, Nat.le_refl _, hI⟩

/-- **Steps along a list keep what each keeps.** -/
theorem keeps_mapM {f : α → Building β} {l : List α} (hf : ∀ a ∈ l, Keeps I (f a)) :
    Keeps I (l.mapM f) := by
  induction l with
  | nil => exact keeps_pure _
  | cons a l ih =>
    rw [List.mapM_cons]
    refine (hf a List.mem_cons_self).seq fun b => ?_
    exact (ih fun c hc => hf c (List.mem_cons_of_mem a hc)).seq fun _ => keeps_pure _

theorem keeps_forM {f : α → Building Unit} {l : List α} (hf : ∀ a ∈ l, Keeps I (f a)) :
    Keeps I (l.forM f) := by
  induction l with
  | nil => exact keeps_pure _
  | cons a l ih =>
    exact (hf a List.mem_cons_self).seq fun _ => ih fun c hc => hf c (List.mem_cons_of_mem a hc)

/-! ## §3. Reading. -/

section Reading

/-- A shape of types that are there. -/
theorem Outlasts.keeps_shape (h : Outlasts I) {k : NativeKind} (hname : k.isNamed = false)
    (htuple : k.shape ≠ .tuple) (hparts : ∀ d : Draft, P d → ∀ m ∈ k.components, d.types.Has m) :
    Forms (fun d => P d ∧ I d) (Building.shape (·.intern k)) fun d _ => I d := by
  refine forms_modifyGet fun d hd hPI => ?_
  have hle := Universe.size_le_intern d.types k
  exact ⟨hd.withTypes (hd.types.intern (hparts d hPI.1) hname) hle, hle,
    h.shape hd hPI.2 hname htuple (hparts d hPI.1)⟩

/-- To look a name up changes nothing. -/
theorem keeps_declared (name written : String) : Keeps I (declared name written) := by
  refine keeps_get.seq fun d₀ => ?_
  split
  · exact keeps_pure _
  · exact keeps_throw _

/-- To look up a name of another package may add it. -/
theorem Outlasts.keeps_foreign (h : Outlasts I) (package name : String) :
    Keeps I (modifyGet (·.foreign package name)) := by
  intro d a d' hd hI hrun
  obtain ⟨hd', hle, _⟩ := forms_foreign package name d a d' hd trivial hrun
  refine ⟨hd', hle, ?_⟩
  have heq : d.foreign package name = (a, d') := Except.ok.inj hrun
  have hI' := h.foreign package name hd hI
  rwa [heq] at hI'

/-- **What outlasts shapes and names outlasts every type expression.** -/
theorem keeps_resolve (h : Outlasts I) (source : String) (e : TypeExpr) :
    Keeps I (resolve source e) := by
  induction e with
  | unqualified name =>
    unfold resolve
    split
    · exact keeps_pure _
    · split
      · exact keeps_pure _
      · split
        · exact keeps_pure _
        · exact keeps_declared name name
  | qualified package name =>
    unfold resolve
    split
    · exact keeps_pure _
    · refine keeps_get.seq fun d₀ => ?_
      split
      · exact keeps_declared name _
      · exact h.keeps_foreign package name
  | pointer elem ih =>
    unfold resolve
    refine ih.bind (forms_resolve source elem) fun id => ?_
    refine h.keeps_shape rfl (by simp [NativeKind.shape]) fun d hd m hm => ?_
    rw [List.mem_singleton.1 hm]
    exact hd
  | slice elem ih =>
    unfold resolve
    refine ih.bind (forms_resolve source elem) fun id => ?_
    refine h.keeps_shape rfl (by simp [NativeKind.shape]) fun d hd m hm => ?_
    rw [List.mem_singleton.1 hm]
    exact hd
  | map key value ihkey ihvalue =>
    unfold resolve
    refine ihkey.bind (forms_resolve source key) fun k => ?_
    -- the key is still there when the value is read
    have hvalue : Forms (fun d => d.types.Has k ∧ I d) (resolve source value)
        fun d id => d.types.Has id ∧ d.types.Has k :=
      ((forms_resolve source value).frame (lasts_has k)).weaken fun d hd => hd.1
    refine (hvalue.and (ihvalue.weaken fun d hd => hd.2)).bind fun v => ?_
    refine h.keeps_shape rfl (by simp [NativeKind.shape]) fun d hd m hm => ?_
    rcases List.mem_cons.1 hm with rfl | hm
    · exact hd.2
    · rw [List.mem_singleton.1 hm]
      exact hd.1
  | emptyInterface => exact keeps_pure _
  | variadic elem _ => exact keeps_throw _

/-- To parse changes nothing. -/
theorem keeps_parse (source : String) : Keeps I (parse source) := by
  unfold parse
  split
  · exact keeps_pure _
  · exact keeps_throw _

theorem keeps_resolveText (h : Outlasts I) (source : String) : Keeps I (resolveText source) :=
  (keeps_parse source).seq fun e => keeps_resolve h source e

/-- To read a field keeps what outlasts reading. -/
theorem keeps_field (h : Outlasts I) (decl : VarDecl) : Keeps I (field decl) := by
  refine (keeps_parse _).seq fun e => (keeps_resolve h _ e).seq fun type => ?_
  split
  · exact keeps_pure _
  · split
    · exact keeps_pure _
    · exact keeps_throw _

/-- To read parameters keeps what outlasts reading. -/
theorem keeps_params (h : Outlasts I) (method : String) (decls : List VarDecl) :
    Keeps I (params method decls) := by
  -- on the parameters; one that is written with dots has to be the last
  induction decls with
  | nil => exact keeps_pure _
  | cons decl rest ih =>
    unfold params
    refine (keeps_parse _).seq fun e => ?_
    split
    · rename_i elem
      split
      · refine (keeps_resolve h _ elem).bind (forms_resolve _ elem) fun id => ?_
        have hslice : Forms (fun d => d.types.Has id ∧ I d) (shape (·.slice id)) fun d _ => I d := by
          refine h.keeps_shape rfl (by simp [NativeKind.shape]) fun d hd m hm => ?_
          rw [List.mem_singleton.1 hm]
          exact hd
        exact hslice.bind fun _ => keeps_pure _
      · exact keeps_throw _
    · exact (keeps_resolve h _ _).seq fun _ => ih.seq fun _ => keeps_pure _

theorem keeps_method (h : Outlasts I) (decl : MethodDecl) : Keeps I (method decl) := by
  refine (keeps_params h _ _).seq fun ps => ?_
  refine (keeps_mapM fun decl _ => ?_).seq fun _ => keeps_pure _
  exact (keeps_resolveText h decl.type).seq fun _ => keeps_pure _

end Reading

/-! ## §4. Declarations. -/

/-- The property outlasts whatever a type of the given id is defined as. -/
structure OutlastsDefining (I : Draft → Prop) (id : NativeId) : Prop extends Outlasts I where
  define : ∀ {d : Draft} {target : NativeId}, d.Formed → I d → d.types.Has target →
    I (d.define id target)
  addMethod : ∀ {d : Draft} (m : Method), d.Formed → I d → I (d.addMethod id m)

/-- To intern a shape and define a type as it keeps what outlasts defining. -/
theorem OutlastsDefining.shaped {id : NativeId} (h : OutlastsDefining I id) {d : Draft}
    {k : NativeKind} (hd : d.Formed) (hI : I d) (hname : k.isNamed = false)
    (htuple : k.shape ≠ .tuple) (hparts : ∀ m ∈ k.components, d.types.Has m) :
    I ((d.build (·.intern k)).2.define id (d.build (·.intern k)).1) :=
  h.define (hd.withTypes (hd.types.intern hparts hname) (Universe.size_le_intern d.types k))
    (h.shape hd hI hname htuple hparts) (Universe.has_intern k)

/-- **To define a type keeps what outlasts defining it.** -/
theorem keeps_underlying {id : NativeId} (h : OutlastsDefining I id) (decl : UnderlyingDecl) :
    Keeps I (underlying id decl) := by
  -- read what the type stands for, then define it as that
  cases decl with
  | struct fields =>
    have hfields := forms_mapM forms_field (fun f => lasts_has f.type) fields
    refine (keeps_mapM fun f _ => keeps_field h.toOutlasts f).bind hfields fun fs => ?_
    refine forms_modifyGet fun d hd hfs => ?_
    -- the types of the fields are there
    have hparts : ∀ m ∈ (NativeKind.struct fs).components, d.types.Has m := by
      intro m hm
      obtain ⟨f, hf, rfl⟩ := List.mem_map.1 hm
      exact hfs.1 f hf
    exact ⟨hd.defineShape id rfl hparts, d.size_defineShape id _,
      h.shaped hd hfs.2 rfl (by simp [NativeKind.shape]) hparts⟩
  | interface methods embeds =>
    refine (keeps_mapM fun m _ => keeps_method h.toOutlasts m).seq fun ms => ?_
    have hembeds := forms_mapM forms_resolveText lasts_has embeds
    refine (keeps_mapM fun e _ => keeps_resolveText h.toOutlasts e).bind hembeds fun embedded => ?_
    refine forms_modifyGet fun d hd hembedded => ?_
    exact ⟨hd.defineShape id rfl hembedded.1, d.size_defineShape id _,
      h.shaped hd hembedded.2 rfl (by simp [NativeKind.shape]) hembedded.1⟩
  | type expr =>
    refine (keeps_resolveText h.toOutlasts expr).bind (forms_resolveText expr) fun target => ?_
    refine forms_modifyGet fun d hd htarget => ?_
    exact ⟨hd.define id target, Nat.le_of_eq (Universe.size_modifyNamed _ _ _).symm,
      h.define hd htarget.2 htarget.1⟩

/-- **What outlasts the ways to define a type outlasts its declaration.** -/
theorem keeps_type {id : NativeId} (h : OutlastsDefining I id) (decl : TypeDecl) :
    Keeps I (type id decl) := by
  refine (keeps_underlying h _).seq fun _ => keeps_forM fun m _ => ?_
  refine (keeps_method h.toOutlasts m).seq fun m => forms_modifyGet fun d hd hI => ?_
  have hsize : d.types.size = (d.addMethod id m).types.size :=
    (Universe.size_modifyNamed _ _ _).symm
  exact ⟨hd.withTypes (hd.types.addMethod id m) (Nat.le_of_eq hsize), Nat.le_of_eq hsize,
    h.addMethod m hd hI⟩

/-- To read a constant keeps what outlasts reading, and adding constants. -/
theorem keeps_constant (h : Outlasts I)
    (hadd : ∀ (d : Draft) (name literal : String) (type : NativeId), I d →
      I (d.addConstant name type literal)) (decl : ConstDecl) : Keeps I (constant decl) := by
  refine (keeps_resolveText h decl.type).seq fun type => forms_modifyGet fun d hd hI => ?_
  exact ⟨⟨hd.types, hd.builtin, hd.declared, hd.foreigns⟩, Nat.le_refl _,
    hadd d _ _ _ hI⟩

end RpcSchema.Building
