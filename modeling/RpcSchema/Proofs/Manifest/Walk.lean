/-
  RpcSchema.Proofs.Manifest.Walk
  ──────────────────────────────
  **WHAT HOLDS OF EVERY PACKAGE THAT A MANIFEST DESCRIBES.**

  The walk over a manifest reads type expressions into ids that the
  universe of the draft has handed out, and builds shapes of these.  So
  the universe stays well-formed through every step of the walk, and
  freezing the draft only changes what names stand for.

  Main statement: `build_formed`.
-/
import RpcSchema.Manifest.Build
import RpcSchema.Proofs.Native.Formation
import RpcSchema.Sequence.Association

namespace RpcSchema

/-! ## §1. Drafts. -/

/-- What holds of a draft between two steps of the walk. -/
structure Draft.Formed (d : Draft) : Prop where
  types : d.types.Formed
  /-- The builtin types are there. -/
  builtin : 21 ≤ d.types.size
  declared : ∀ x ∈ d.declared, d.types.Has x.2
  foreigns : ∀ x ∈ d.foreigns, d.types.Has x.2

namespace Draft

variable {d : Draft}

/-- The first draft is well-formed. -/
theorem start_formed (path : String) (name? : Option String) : (start path name?).Formed where
  types := Universe.predeclared_formed
  builtin := by
    show 21 ≤ Universe.predeclared.size
    decide
  declared _ hx := absurd hx List.not_mem_nil
  foreigns _ hx := absurd hx List.not_mem_nil

/-- The universe of a draft may grow. -/
theorem Formed.withTypes (h : d.Formed) {u : Universe} (hu : u.Formed)
    (hle : d.types.size ≤ u.size) : Formed { d with types := u } where
  types := hu
  builtin := Nat.le_trans h.builtin hle
  declared x hx := (h.declared x hx).of_le hle
  foreigns x hx := (h.foreigns x hx).of_le hle

/-- A declared type may be defined, in any way. -/
theorem Formed.define (h : d.Formed) (id underlying : NativeId) : (d.define id underlying).Formed :=
  h.withTypes (h.types.setUnderlying id underlying)
    (Nat.le_of_eq (Universe.size_modifyNamed _ _ _).symm)

/-- A named type may be defined by a shape of types that are there. -/
theorem Formed.defineShape (h : d.Formed) (id : NativeId) {k : NativeKind}
    (hname : k.isNamed = false) (hparts : ∀ m ∈ k.components, d.types.Has m) :
    ((d.build (·.intern k)).2.define id (d.build (·.intern k)).1).Formed :=
  (h.withTypes (h.types.intern hparts hname) (Universe.size_le_intern d.types k)).define id _

theorem size_defineShape (d : Draft) (id : NativeId) (k : NativeKind) :
    d.types.size ≤ ((d.build (·.intern k)).2.define id (d.build (·.intern k)).1).types.size :=
  Nat.le_trans (Universe.size_le_intern d.types k)
    (Nat.le_of_eq (Universe.size_modifyNamed _ _ _).symm)

theorem Formed.has_basic (h : d.Formed) (kind : BasicKind) : d.types.Has (.basic kind) :=
  ⟨kind.index, by have := kind.index_lt; have := h.builtin; omega, rfl⟩

theorem Formed.has_error (h : d.Formed) : d.types.Has .error :=
  ⟨18, by have := h.builtin; omega, rfl⟩

theorem Formed.has_emptyInterface (h : d.Formed) : d.types.Has .emptyInterface :=
  ⟨19, by have := h.builtin; omega, rfl⟩

theorem Formed.has_lookup (h : d.Formed) {name : String} {id : NativeId}
    (hid : d.lookup? name = some id) : d.types.Has id :=
  h.declared _ (Sequence.mem_of_lookup hid)

end Draft

/-! ## §2. Steps. -/

namespace Building

variable {α β : Type}

/-- On a well-formed draft with the property `P` the step, if it does not fail, leaves a well-formed
draft with all the types there were, and its result has the property `Q`. -/
def Forms (P : Draft → Prop) (x : Building α) (Q : Draft → α → Prop) : Prop :=
  ∀ d a d', d.Formed → P d → x.run d = .ok (a, d') →
    d'.Formed ∧ d.types.size ≤ d'.types.size ∧ Q d' a

/-- A property of drafts that outlasts further types. -/
def Lasts (F : Draft → Prop) : Prop :=
  ∀ d d' : Draft, d.types.size ≤ d'.types.size → F d → F d'

theorem lasts_true : Lasts fun _ => True :=
  fun _ _ _ h => h

theorem lasts_has (id : NativeId) : Lasts fun d => d.types.Has id :=
  fun _ _ hle h => h.of_le hle

variable {P F : Draft → Prop} {Q : Draft → α → Prop} {R : Draft → β → Prop}

theorem forms_pure {a : α} (h : ∀ d, d.Formed → P d → Q d a) : Forms P (pure a) Q := by
  intro d b d' hd hP hrun
  cases hrun
  exact ⟨hd, Nat.le_refl _, h d hd hP⟩

theorem forms_throw (e : LoadError) : Forms P (throw e : Building α) Q := by
  intro d b d' _ _ hrun
  cases hrun

theorem forms_get : Forms P get fun d a => a = d ∧ P d := by
  intro d b d' hd hP hrun
  cases hrun
  exact ⟨hd, Nat.le_refl _, rfl, hP⟩

/-- A change that keeps drafts well-formed. -/
theorem forms_modifyGet {f : Draft → α × Draft}
    (h : ∀ d, d.Formed → P d →
      (f d).2.Formed ∧ d.types.size ≤ (f d).2.types.size ∧ Q (f d).2 (f d).1) :
    Forms P (modifyGet f) Q := by
  intro d b d' hd hP hrun
  have heq : f d = (b, d') := Except.ok.inj hrun
  have hf := h d hd hP
  rw [heq] at hf
  exact hf

theorem forms_modify {f : Draft → Draft}
    (h : ∀ d, d.Formed → P d → (f d).Formed ∧ d.types.size ≤ (f d).types.size) :
    Forms P (modify f) fun _ _ => True := by
  refine forms_modifyGet fun d hd hP => ?_
  obtain ⟨hf, hle⟩ := h d hd hP
  exact ⟨hf, hle, trivial⟩

/-- Steps are put together. -/
theorem Forms.bind {x : Building α} {f : α → Building β} (hx : Forms P x Q)
    (hf : ∀ a, Forms (fun d => Q d a) (f a) R) : Forms P (x >>= f) R := by
  intro d b d'' hd hP hrun
  rw [StateT.run_bind] at hrun
  -- if the first step fails nothing is left to show
  cases hfirst : x.run d with
  | error e =>
    rw [hfirst] at hrun
    cases hrun
  | ok out =>
    obtain ⟨a, d'⟩ := out
    rw [hfirst] at hrun
    obtain ⟨hd', hle, hQ⟩ := hx d a d' hd hP hfirst
    obtain ⟨hd'', hle', hR⟩ := hf a d' b d'' hd' hQ hrun
    exact ⟨hd'', Nat.le_trans hle hle', hR⟩

/-- A step that leaves any draft well-formed may stand anywhere. -/
theorem Forms.any {x : Building α} (hx : Forms (fun _ => True) x Q) : Forms P x Q :=
  fun d a d' hd _ hrun => hx d a d' hd trivial hrun

/-- What outlasts further types holds after the step as before. -/
theorem Forms.frame {x : Building α} (hx : Forms (fun _ => True) x Q) (hF : Lasts F) :
    Forms F x fun d a => Q d a ∧ F d := by
  intro d a d' hd hFd hrun
  obtain ⟨hd', hle, hQ⟩ := hx d a d' hd trivial hrun
  exact ⟨hd', hle, hQ, hF d d' hle hFd⟩

/-- **Along a list all results last.** -/
theorem forms_mapM {f : α → Building β} (hf : ∀ a, Forms (fun _ => True) (f a) R)
    (hR : ∀ b, Lasts fun d => R d b) (l : List α) :
    Forms (fun _ => True) (l.mapM f) fun d bs => ∀ b ∈ bs, R d b := by
  induction l with
  | nil => exact forms_pure fun d _ _ b hb => absurd hb List.not_mem_nil
  | cons a l ih =>
    rw [List.mapM_cons]
    refine (hf a).bind fun b => ?_
    refine (ih.frame (hR b)).bind fun bs => forms_pure fun d _ hbs c hc => ?_
    -- what was read first stays good while the rest is read
    rcases List.mem_cons.1 hc with rfl | hc
    · exact hbs.2
    · exact hbs.1 c hc

theorem forms_forM {f : α → Building Unit}
    (hf : ∀ a, Forms (fun _ => True) (f a) fun _ _ => True) (l : List α) :
    Forms (fun _ => True) (l.forM f) fun _ _ => True := by
  induction l with
  | nil => exact forms_pure fun _ _ _ => trivial
  | cons a l ih => exact (hf a).bind fun _ => ih

/-! ## §3. The walk. -/

/-- A shape of types that are there. -/
theorem forms_shape {k : NativeKind} (hname : k.isNamed = false)
    (hparts : ∀ d : Draft, P d → ∀ m ∈ k.components, d.types.Has m) :
    Forms P (shape (·.intern k)) fun d id => d.types.Has id := by
  refine forms_modifyGet fun d hd hP => ?_
  have hle := Universe.size_le_intern d.types k
  exact ⟨hd.withTypes (hd.types.intern (hparts d hP) hname) hle, hle, Universe.has_intern k⟩

/-- A name is looked up as a type that is there. -/
theorem forms_declared (name written : String) :
    Forms (fun _ => True) (declared name written) fun d id => d.types.Has id := by
  refine forms_get.bind fun d₀ => ?_
  split
  · rename_i id hid
    refine forms_pure fun d hd h => ?_
    obtain ⟨rfl, _⟩ := h
    exact hd.has_lookup hid
  · exact forms_throw _

/-- A name of another package is a type that is there, added if need be. -/
theorem forms_foreign (package name : String) :
    Forms (fun _ => True) (modifyGet (·.foreign package name)) fun d id => d.types.Has id := by
  refine forms_modifyGet fun d hd _ => ?_
  unfold Draft.foreign
  split
  · rename_i id hid
    exact ⟨hd, Nat.le_refl _, hd.foreigns _ (Sequence.mem_of_lookup hid)⟩
  · -- a name, and the shape of all opaque types
    obtain ⟨n, u, hdecl⟩ : ∃ n u, d.types.declareNamed name (some package) = (n, u) :=
      ⟨_, _, rfl⟩
    obtain ⟨opaqueShape, v, hstruct⟩ : ∃ k v, u.struct [] = (k, v) := ⟨_, _, rfl⟩
    have hu : u.Formed := by
      have h := hd.types.declareNamed name package
      rwa [hdecl] at h
    have hn : u.Has n := by
      have h := Universe.has_push (u := d.types) (.named ⟨name, some package, .undefined, []⟩)
      rwa [show d.types.push _ = (n, u) from hdecl] at h
    have hle : d.types.size ≤ u.size := by
      have h := Universe.size_push d.types (.named ⟨name, some package, .undefined, []⟩)
      rw [show d.types.push _ = (n, u) from hdecl] at h
      exact h ▸ Nat.le_succ _
    have hv : v.Formed := by
      have h := hu.intern (k := .struct []) (fun m hm => absurd hm List.not_mem_nil) rfl
      rwa [show u.intern (.struct []) = (opaqueShape, v) from hstruct] at h
    have hle' : u.size ≤ v.size := by
      have h := Universe.size_le_intern u (.struct [])
      rwa [show u.intern (.struct []) = (opaqueShape, v) from hstruct] at h
    have hsize : (v.setUnderlying n opaqueShape).size = v.size := Universe.size_modifyNamed _ _ _
    have hgrown := hd.withTypes (hv.setUnderlying n opaqueShape) (by omega)
    have hhas : (v.setUnderlying n opaqueShape).Has n := hn.of_le (by omega)
    simp only [hdecl, hstruct]
    refine ⟨⟨hgrown.types, hgrown.builtin, hgrown.declared, fun x hx => ?_⟩, by omega, hhas⟩
    rcases List.mem_append.1 hx with hx | hx
    · exact hgrown.foreigns x hx
    · rw [List.mem_singleton.1 hx]
      exact hhas

/-- **A type expression is read into a type that is there.** -/
theorem forms_resolve (source : String) (e : TypeExpr) :
    Forms (fun _ => True) (resolve source e) fun d id => d.types.Has id := by
  induction e with
  | unqualified name =>
    unfold resolve
    split
    · exact forms_pure fun d hd _ => hd.has_basic _
    · split
      · exact forms_pure fun d hd _ => hd.has_error
      · split
        · exact forms_pure fun d hd _ => hd.has_emptyInterface
        · exact forms_declared name name
  | qualified package name =>
    unfold resolve
    split
    · exact forms_pure fun d hd _ => hd.has_basic _
    · refine forms_get.bind fun d₀ => ?_
      split
      · exact (forms_declared name _).any
      · exact (forms_foreign package name).any
  | pointer elem ih =>
    unfold resolve
    refine ih.bind fun id => forms_shape rfl fun d hd m hm => ?_
    rw [List.mem_singleton.1 hm]
    exact hd
  | slice elem ih =>
    unfold resolve
    refine ih.bind fun id => forms_shape rfl fun d hd m hm => ?_
    rw [List.mem_singleton.1 hm]
    exact hd
  | map key value ihkey ihvalue =>
    unfold resolve
    refine ihkey.bind fun k => ?_
    -- the key is still there when the value is read
    refine (ihvalue.frame (lasts_has k)).bind fun v => forms_shape rfl fun d hd m hm => ?_
    rcases List.mem_cons.1 hm with rfl | hm
    · exact hd.2
    · rw [List.mem_singleton.1 hm]
      exact hd.1
  | emptyInterface =>
    unfold resolve
    exact forms_pure fun d hd _ => hd.has_emptyInterface
  | variadic elem _ =>
    unfold resolve
    exact forms_throw _

/-- To parse leaves the draft as it is. -/
theorem forms_parse (source : String) :
    Forms (fun _ => True) (parse source) fun _ _ => True := by
  unfold parse
  split
  · exact forms_pure fun _ _ _ => trivial
  · exact forms_throw _

theorem forms_resolveText (source : String) :
    Forms (fun _ => True) (resolveText source) fun d id => d.types.Has id :=
  (forms_parse source).bind fun e => forms_resolve source e

/-- The type of a field is there. -/
theorem forms_field (decl : VarDecl) :
    Forms (fun _ => True) (field decl) fun d f => d.types.Has f.type := by
  refine (forms_parse _).bind fun e => (forms_resolve _ e).bind fun type => ?_
  split
  · exact forms_pure fun d _ h => h
  · split
    · exact forms_pure fun d _ h => h
    · exact forms_throw _

/-- The parameters of a method; its shape is not made of their types. -/
theorem forms_params (method : String) (decls : List VarDecl) :
    Forms (fun _ => True) (params method decls) fun _ _ => True := by
  -- on the parameters
  induction decls with
  | nil => exact forms_pure fun _ _ _ => trivial
  | cons decl rest ih =>
    unfold params
    refine (forms_parse _).bind fun e => ?_
    split
    · rename_i elem
      split
      · refine (forms_resolve _ elem).bind fun id => ?_
        have hslice : Forms (fun d => d.types.Has id) (shape (·.slice id))
            fun d id => d.types.Has id := by
          refine forms_shape rfl fun d hd m hm => ?_
          rw [List.mem_singleton.1 hm]
          exact hd
        exact hslice.bind fun _ => forms_pure fun _ _ _ => trivial
      · exact forms_throw _
    · refine (forms_resolve _ _).bind fun id => ?_
      exact ih.any.bind fun _ => forms_pure fun _ _ _ => trivial

/-- To read a method leaves a well-formed draft. -/
theorem forms_method (decl : MethodDecl) :
    Forms (fun _ => True) (method decl) fun _ _ => True := by
  refine (forms_params _ _).bind fun ps => ?_
  have hresult : ∀ decl, Forms (fun _ => True) (result decl) fun _ _ => True :=
    fun decl => (forms_resolveText decl.type).bind fun _ => forms_pure fun _ _ _ => trivial
  exact (forms_mapM hresult (fun _ => lasts_true) _).bind fun _ => forms_pure fun _ _ _ => trivial

/-- To define a type leaves a well-formed draft. -/
theorem forms_underlying (id : NativeId) (decl : UnderlyingDecl) :
    Forms (fun _ => True) (underlying id decl) fun _ _ => True := by
  cases decl with
  | struct fields =>
    refine (forms_mapM forms_field (fun f => lasts_has f.type) fields).bind fun fs => ?_
    refine forms_modify fun d hd hfs => ⟨hd.defineShape id rfl fun m hm => ?_, d.size_defineShape id _⟩
    obtain ⟨f, hf, rfl⟩ := List.mem_map.1 hm
    exact hfs f hf
  | interface methods embeds =>
    refine (forms_mapM forms_method (fun _ => lasts_true) methods).bind fun ms => ?_
    refine (forms_mapM forms_resolveText lasts_has embeds).any.bind fun embedded => ?_
    exact forms_modify fun d hd hembedded =>
      ⟨hd.defineShape id rfl hembedded, d.size_defineShape id _⟩
  | type expr =>
    refine (forms_resolveText expr).bind fun target => ?_
    exact forms_modify fun d hd _ =>
      ⟨hd.define id target, Nat.le_of_eq (Universe.size_modifyNamed _ _ _).symm⟩

/-- To visit a type leaves a well-formed draft. -/
theorem forms_type (id : NativeId) (decl : TypeDecl) :
    Forms (fun _ => True) (type id decl) fun _ _ => True := by
  refine (forms_underlying id _).bind fun _ => forms_forM (fun m => ?_) _
  refine (forms_method m).bind fun m => forms_modify fun d hd _ => ?_
  exact ⟨hd.withTypes (hd.types.addMethod id m)
    (Nat.le_of_eq (Universe.size_modifyNamed _ _ _).symm),
    Nat.le_of_eq (Universe.size_modifyNamed _ _ _).symm⟩

theorem forms_constant (decl : ConstDecl) :
    Forms (fun _ => True) (constant decl) fun _ _ => True := by
  refine (forms_resolveText decl.type).bind fun type => forms_modify fun d hd _ => ?_
  exact ⟨⟨hd.types, hd.builtin, hd.declared, hd.foreigns⟩, Nat.le_refl _⟩

/-- To declare a name leaves a well-formed draft. -/
theorem forms_declare (name : String) :
    Forms (fun _ => True) (modifyGet (·.declare name)) fun _ _ => True := by
  refine forms_modifyGet fun d hd _ => ?_
  unfold Draft.declare
  -- a name that is there is only noted as repeated
  split
  · exact ⟨⟨hd.types, hd.builtin, hd.declared, hd.foreigns⟩, Nat.le_refl _, trivial⟩
  · have hu := hd.types.declareNamed name d.path
    have hle : d.types.size ≤ (d.types.declareNamed name (some d.path)).2.size := by
      rw [Universe.declareNamed, Universe.size_push]
      exact Nat.le_succ _
    have hgrown := hd.withTypes hu hle
    refine ⟨⟨hu, hgrown.builtin, fun x hx => ?_, hgrown.foreigns⟩, hle, trivial⟩
    rcases List.mem_append.1 hx with hx | hx
    · exact hgrown.declared x hx
    · rw [List.mem_singleton.1 hx]
      exact Universe.has_push _

/-- **The walk over a manifest keeps drafts well-formed.** -/
theorem forms_manifest (m : Manifest) :
    Forms (fun _ => True) (manifest m) fun _ _ => True := by
  refine (forms_mapM (fun decl : TypeDecl => forms_declare decl.name)
    (fun _ => lasts_true) _).bind fun ids => ?_
  have htypes := forms_forM (fun x : NativeId × TypeDecl => forms_type x.1 x.2) (ids.zip m.types)
  exact htypes.any.bind fun _ => forms_forM forms_constant m.constants

end Building

/-! ## §4. Packages. -/

/-- Freezing changes what names stand for, and nothing else. -/
theorem Draft.collapse_formed {hops : Nat} {u v : Universe} {ids : List NativeId}
    (hu : u.Formed) (h : Draft.collapse hops u ids = .ok v) : v.Formed := by
  induction ids generalizing u with
  | nil =>
    cases h
    exact hu
  | cons id rest ih =>
    unfold collapse at h
    split at h
    · cases h
    · exact ih (hu.setUnderlying _ _) h

/-- **The universe of a package that a manifest describes is well-formed.** -/
theorem Manifest.build_formed {m : Manifest} {pkg : Package} (h : m.build = .ok pkg) :
    pkg.types.Formed := by
  unfold Manifest.build at h
  split at h
  · cases h
  · rename_i draft hrun
    obtain ⟨hd, _, _⟩ :=
      Building.forms_manifest m _ _ _ (Draft.start_formed m.path m.name) trivial hrun
    unfold Draft.finish at h
    split at h
    · cases h
    · split at h
      · cases h
      · -- freezing names keeps the universe well-formed
        rename_i u hu
        cases h
        exact Draft.collapse_formed hd.types hu

end RpcSchema
