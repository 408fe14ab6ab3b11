/-
  RpcSchema.Proofs.Manifest.Points
  ────────────────────────────────
  **THE POINTS OF A WALK, AND WHAT LASTS BETWEEN THEM.**

  The walk over a manifest changes its draft in six ways: it declares a
  name, interns a shape of types that are there, adds a name of another
  package, gives a declared type what it stands for or one more method, and
  notes down a constant.  What these steps lead to are the points of walks.

  Between two points no name changes what it stands for, no shape changes,
  and no named type changes its name or its package.

  Main statements: `leads_manifest` (the walk takes these steps only),
  `Leads.formed_tidy` and `Leads.extends`.
-/
import Mathlib.Logic.Relation
import RpcSchema.Proofs.Manifest.Echo

namespace RpcSchema

namespace Draft

variable {d d' e : Draft} {n : NativeId}

/-! ## §1. Steps. -/

/-- A step of the walk over a manifest. -/
inductive Step : Draft → Draft → Prop
  | declare (d : Draft) (name : String) : Step d (d.declare name).2
  | shape {d : Draft} {k : NativeKind} (hname : k.isNamed = false) (htuple : k.shape ≠ .tuple)
      (hparts : ∀ m ∈ k.components, d.types.Has m) : Step d (d.build (·.intern k)).2
  | foreign (d : Draft) (package name : String) : Step d (d.foreign package name).2
  | define {d : Draft} {id target : NativeId} (hid : id ∈ d.declared.map (·.2))
      (htarget : d.types.Has target) : Step d (d.define id target)
  | addMethod {d : Draft} {id : NativeId} (hid : id ∈ d.declared.map (·.2)) (m : Method) :
      Step d (d.addMethod id m)
  | addConstant (d : Draft) (name : String) (type : NativeId) (literal : String) :
      Step d (d.addConstant name type literal)

/-- Steps lead from one draft to the other. -/
def Leads : Draft → Draft → Prop :=
  Relation.ReflTransGen Step

theorem Leads.refl (d : Draft) : d.Leads d :=
  Relation.ReflTransGen.refl

theorem Leads.trans (h : d.Leads d') (h' : d'.Leads e) : d.Leads e :=
  Relation.ReflTransGen.trans h h'

theorem Leads.step (h : d.Leads d') (h' : d'.Step e) : d.Leads e :=
  Relation.ReflTransGen.tail h h'

/-! ## §2. What holds at every point. -/

/-- A step leaves a well-formed draft. -/
theorem Step.formed (h : d.Step e) (hd : d.Formed) : e.Formed := by
  cases h with
  | declare name => exact (Building.forms_declare name d _ _ hd trivial rfl).1
  | shape hname htuple hparts =>
    exact hd.withTypes (hd.types.intern hparts hname) (Universe.size_le_intern d.types _)
  | foreign package name => exact (Building.forms_foreign package name d _ _ hd trivial rfl).1
  | define hid htarget => exact hd.define _ _
  | @addMethod id hid m =>
    have hsize : (d.types.addMethod id m).size = d.types.size := Universe.size_modifyNamed _ _ _
    exact hd.withTypes (hd.types.addMethod id m) (Nat.le_of_eq hsize.symm)
  | addConstant name type literal => exact ⟨hd.types, hd.builtin, hd.declared, hd.foreigns⟩

/-- A step leaves a tidy draft. -/
theorem Step.tidy (h : d.Step e) (hd : d.Tidy) : e.Tidy := by
  cases h with
  | declare name => exact hd.declare name
  | shape hname htuple hparts => exact hd.shape hname htuple
  | foreign package name => exact hd.foreign package name
  | define hid htarget => exact hd.define (hd.ne_error hid) htarget
  | addMethod hid m => exact hd.addMethod (hd.ne_error hid) m
  | addConstant name type literal => exact hd.congr rfl rfl rfl rfl

/-- **Every point of a walk is well-formed and tidy.**  By induction on the steps to it. -/
theorem Leads.formed_tidy (h : d.Leads e) (hformed : d.Formed) (htidy : d.Tidy) :
    e.Formed ∧ e.Tidy := by
  induction h with
  | refl => exact ⟨hformed, htidy⟩
  | tail _ hstep ih => exact ⟨hstep.formed ih.1, hstep.tidy ih.2⟩

/-! ## §3. What lasts between points. -/

/-- Names stand for what they stood for, shapes are as they were, and so are the names and packages
of named types. -/
structure Extends (d e : Draft) : Prop where
  path : e.path = d.path
  name : e.name = d.name
  declared : ∀ name id, d.lookup? name = some id → e.lookup? name = some id
  foreigns : ∀ key id, d.foreigns.lookup key = some id → e.foreigns.lookup key = some id
  size : d.types.size ≤ e.types.size
  shapes : ∀ n, d.types.Has n → (d.types.kind n).isNamed = false →
    e.types.kind n = d.types.kind n
  titles : ∀ n decl, d.types.kind n = .named decl → ∃ decl', e.types.kind n = .named decl' ∧
    decl'.name = decl.name ∧ decl'.package = decl.package

/-- More types, other names and constants change nothing about the types there are. -/
theorem extends_of_kept (hpath : e.path = d.path) (hname : e.name = d.name)
    (hdeclared : ∀ name id, d.lookup? name = some id → e.lookup? name = some id)
    (hforeigns : ∀ key id, d.foreigns.lookup key = some id → e.foreigns.lookup key = some id)
    (hsize : d.types.size ≤ e.types.size)
    (hkept : ∀ n, d.types.Has n → e.types.kind n = d.types.kind n) : d.Extends e where
  path := hpath
  name := hname
  declared := hdeclared
  foreigns := hforeigns
  size := hsize
  shapes n hn _ := hkept n hn
  titles n decl hn := ⟨decl, (hkept n (Universe.has_of_named hn)).trans hn, rfl, rfl⟩

theorem Extends.refl (d : Draft) : d.Extends d :=
  extends_of_kept rfl rfl (fun _ _ h => h) (fun _ _ h => h) (Nat.le_refl _) fun _ _ => rfl

/-- Extensions may be put together. -/
theorem Extends.trans (h : d.Extends d') (h' : d'.Extends e) : d.Extends e where
  path := h'.path.trans h.path
  name := h'.name.trans h.name
  declared name id hid := h'.declared name id (h.declared name id hid)
  foreigns key id hid := h'.foreigns key id (h.foreigns key id hid)
  size := Nat.le_trans h.size h'.size
  shapes n hn hname := by
    have hkeep := h.shapes n hn hname
    -- an unnamed shape stays, so it is unnamed in between as well
    rw [h'.shapes n (hn.of_le h.size) (by rw [hkeep]; exact hname), hkeep]
  titles n decl hn := by
    obtain ⟨decl₁, hn₁, hname₁, hpackage₁⟩ := h.titles n decl hn
    obtain ⟨decl₂, hn₂, hname₂, hpackage₂⟩ := h'.titles n decl₁ hn₁
    exact ⟨decl₂, hn₂, hname₂.trans hname₁, hpackage₂.trans hpackage₁⟩

/-- To add types is to extend. -/
theorem Adds.extends (h : Adds d e) : d.Extends e := by
  apply extends_of_kept h.path h.name _ h.foreigns h.size
  · intro n hn
    exact h.kept n hn (Or.inr fun hno => hno)
  · intro name id hid
    unfold lookup? at hid ⊢
    rw [h.declared]
    exact hid

/-- The declaration of a type may change, but for its name and package. -/
theorem extends_amend (d : Draft) (id : NativeId) {f : NamedType → NamedType}
    (hname : ∀ decl, (f decl).name = decl.name)
    (hpackage : ∀ decl, (f decl).package = decl.package) : d.Extends (d.amend id f) where
  path := rfl
  name := rfl
  declared _ _ h := h
  foreigns _ _ h := h
  size := Nat.le_of_eq (Universe.size_modifyNamed _ _ _).symm
  shapes _ _ hun := Universe.kind_modifyNamed_of_not_named id f hun
  titles n decl hn := by
    -- another type, or the one that is amended, which keeps its name and its package
    rcases Universe.kind_modifyNamed d.types id f n with hold | ⟨decl', hn', hnew⟩
    · exact ⟨decl, hold.trans hn, rfl, rfl⟩
    · obtain rfl := NativeKind.named.inj (hn.symm.trans hn')
      exact ⟨f decl, hnew, hname decl, hpackage decl⟩

/-- To declare a name extends the draft. -/
theorem extends_declare (d : Draft) (name : String) : d.Extends (d.declare name).2 := by
  unfold declare
  split
  · exact extends_of_kept rfl rfl (fun _ _ h => h) (fun _ _ h => h) (Nat.le_refl _) fun _ _ => rfl
  · refine extends_of_kept rfl rfl ?_ (fun _ _ h => h) ?_ ?_
    · intro other id hid
      -- the name is put behind those there are
      show List.lookup other (d.declared ++ _) = _
      rw [List.lookup_append, show d.declared.lookup other = some id from hid]
      rfl
    · show d.types.size ≤ (d.types.push _).2.size
      rw [Universe.size_push]
      omega
    · intro n hn
      exact Universe.kind_push_of_has _ hn

/-- **A step changes no name and no shape.** -/
theorem Step.extends (h : d.Step e) : d.Extends e := by
  cases h with
  | declare name => exact extends_declare d name
  | @shape k hname htuple hparts => exact Adds.extends (adds_intern d k)
  | foreign package name => exact Adds.extends (foreign_adds d package name).1
  | define hid htarget => exact extends_amend d _ (fun _ => rfl) fun _ => rfl
  | addMethod hid m => exact extends_amend d _ (fun _ => rfl) fun _ => rfl
  | addConstant name type literal => exact Adds.extends (adds_addConstant d name type literal)

/-- **Nor does any later point.** -/
theorem Leads.extends (h : d.Leads e) : d.Extends e := by
  induction h with
  | refl => exact Extends.refl d
  | tail _ hstep ih => exact ih.trans hstep.extends

end Draft

/-! ## §4. The walk takes these steps. -/

namespace Building

open Draft

variable {d d' : Draft}

/-- To be led to from a draft that declares the same types. -/
def LedFrom (d d' : Draft) : Prop :=
  d.Leads d' ∧ d'.declared = d.declared

theorem outlasts_ledFrom (d : Draft) : Outlasts (LedFrom d) where
  shape _ h hname htuple hparts := ⟨h.1.step (.shape hname htuple hparts), h.2⟩
  foreign {d'} package name _ h :=
    ⟨h.1.step (.foreign d' package name), (declared_foreign d' package name).trans h.2⟩

theorem outlastsDefining_ledFrom {id : NativeId} (hid : id ∈ d.declared.map (·.2)) :
    OutlastsDefining (LedFrom d) id where
  toOutlasts := outlasts_ledFrom d
  define _ h htarget := ⟨h.1.step (.define (by rw [h.2]; exact hid) htarget), h.2⟩
  addMethod m _ h := ⟨h.1.step (.addMethod (by rw [h.2]; exact hid) m), h.2⟩

/-- **Reading a type expression takes steps.** -/
theorem leads_resolve {source : String} {e : TypeExpr} {id : NativeId} (hd : d.Formed)
    (h : Runs (resolve source e) d id d') : d.Leads d' :=
  (keeps_resolve (outlasts_ledFrom d) source e d id d' hd ⟨Leads.refl d, rfl⟩ h).2.2.1

/-- To declare all types takes steps of the walk. -/
theorem leads_declare {decls : List TypeDecl} {ids : List NativeId}
    (h : Runs (decls.mapM fun decl => (modifyGet (·.declare decl.name) : Building NativeId))
      d ids d') : d.Leads d' := by
  induction decls generalizing d ids with
  | nil =>
    obtain ⟨_, rfl⟩ := runs_mapM_nil.1 h
    exact Leads.refl _
  | cons decl decls ih =>
    obtain ⟨id, d₁, rest, hfirst, hrest, _⟩ := runs_mapM_cons.1 h
    have heq : (d.declare decl.name).2 = d₁ := congrArg Prod.snd (runs_modifyGet.1 hfirst)
    have hstep : d.Step d₁ := heq ▸ .declare d decl.name
    exact ((Leads.refl d).step hstep).trans (ih hrest)

/-- **The walk over a manifest takes these steps only.** -/
theorem leads_manifest {m : Manifest} (h : Runs (manifest m) (Draft.start m.path m.name) ⟨⟩ d) :
    (Draft.start m.path m.name).Leads d := by
  unfold manifest at h
  obtain ⟨ids, d₁, hdeclare, h⟩ := runs_bind.1 h
  obtain ⟨_, d₂, htypes, hconstants⟩ := runs_bind.1 h
  obtain ⟨hf₁, _, _, _, hids⟩ := declared_of_runs hdeclare
    (Draft.start_formed m.path m.name) (Draft.start_tidy _ _) (Draft.start_opaque _ _)
  -- each part of the walk takes steps, by what it keeps
  have hdefine : Keeps (LedFrom d₁) ((ids.zip m.types).forM fun x => type x.1 x.2) :=
    keeps_forM fun x hx =>
      keeps_type (outlastsDefining_ledFrom (hids x.1 (List.of_mem_zip hx).1)) x.2
  obtain ⟨hf₂, _, hled₂⟩ := hdefine d₁ _ d₂ hf₁ ⟨Leads.refl d₁, rfl⟩ htypes
  have hnote : ∀ (d : Draft) (name literal : String) (type : NativeId),
      LedFrom d₁ d → LedFrom d₁ (d.addConstant name type literal) := by
    intro d name literal type hled
    exact ⟨hled.1.step (.addConstant d name type literal), hled.2⟩
  have hconstant : Keeps (LedFrom d₁) (m.constants.forM constant) :=
    keeps_forM fun c _ => keeps_constant (outlasts_ledFrom d₁) hnote c
  obtain ⟨_, _, hled₃⟩ := hconstant d₂ _ d hf₂ hled₂ hconstants
  exact (leads_declare hdeclare).trans hled₃.1

end Building

end RpcSchema
