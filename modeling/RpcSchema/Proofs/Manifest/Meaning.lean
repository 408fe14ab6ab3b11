/-
  RpcSchema.Proofs.Manifest.Meaning
  ─────────────────────────────────
  **WHAT EXPRESSIONS STAND FOR, AND WHAT DECLARED TYPES HOLD.**

  A type expression stands for a type by the names that are in it: a
  predeclared name for its builtin type, another one for what is declared
  under it, a shape for a shape of what its parts stand for, and `...T`
  for the slice of `T`.  This is said of drafts and of packages alike,
  since all it takes is what names stand for and what is behind ids.

  The walk gives every parameter and every result the type that its
  expression stands for, and marks a method as variadic if its last
  parameter was written so.  This outlasts the walk.

  Main statements: `Denotes.unique`, `denotes_of_runs`, `Gives.reads` and
  `Route.exists_defined` (what a declared type holds).
-/
import RpcSchema.Proofs.Manifest.Acceptance
import RpcSchema.Proofs.Manifest.Rereading

namespace RpcSchema

/-! ## §1. What expressions stand for. -/

/-- What names stand for, and what is behind ids. -/
structure Naming where
  /-- The short name of the package. -/
  own : String
  declared : String → Option NativeId
  /-- The types of other packages. -/
  foreign : String → String → NativeId → Prop
  kind : NativeId → NativeKind

/-- The last parameter is written `...T`. -/
def EndsVariadic (params : List VarDecl) : Prop :=
  ∃ last elem, params.getLast? = some last ∧ TypeExpr.parse last.type = .ok (.variadic elem)

namespace Naming

/-- The type `n` is what the expression stands for. -/
inductive Denotes (s : Naming) : TypeExpr → NativeId → Prop
  | basic {name : String} {kind : BasicKind} (hname : BasicKind.ofName? name = some kind) :
      Denotes s (.unqualified name) (.basic kind)
  | error {name : String} (hname : name = "error") : Denotes s (.unqualified name) .error
  | any {name : String} (hname : name = "any") : Denotes s (.unqualified name) .emptyInterface
  | declared {name : String} {n : NativeId} (hname : ¬ TypeExpr.IsPredeclared name)
      (hn : s.declared name = some n) : Denotes s (.unqualified name) n
  | unsafePointer {package name : String} (hpointer : package = "unsafe" ∧ name = "Pointer") :
      Denotes s (.qualified package name) (.basic .unsafePointer)
  | own {package name : String} {n : NativeId} (hown : package = s.own)
      (hpointer : ¬ (package = "unsafe" ∧ name = "Pointer")) (hn : s.declared name = some n) :
      Denotes s (.qualified package name) n
  | foreign {package name : String} {n : NativeId} (hother : package ≠ s.own)
      (hpointer : ¬ (package = "unsafe" ∧ name = "Pointer")) (hn : s.foreign package name n) :
      Denotes s (.qualified package name) n
  | pointer {elem : TypeExpr} {n t : NativeId} (helem : Denotes s elem t)
      (hkind : s.kind n = .pointer t) : Denotes s (.pointer elem) n
  | slice {elem : TypeExpr} {n t : NativeId} (helem : Denotes s elem t)
      (hkind : s.kind n = .slice t) : Denotes s (.slice elem) n
  | map {key value : TypeExpr} {n k v : NativeId} (hkey : Denotes s key k)
      (hvalue : Denotes s value v) (hkind : s.kind n = .map k v) : Denotes s (.map key value) n
  | emptyInterface : Denotes s .emptyInterface .emptyInterface
  | variadic {elem : TypeExpr} {n t : NativeId} (helem : Denotes s elem t)
      (hkind : s.kind n = .slice t) : Denotes s (.variadic elem) n

/-- A parameter or a result has the name and the type that are written. -/
def Types (s : Naming) (decl : VarDecl) (v : Var) : Prop :=
  v.name = decl.name ∧ ∃ e, TypeExpr.parse decl.type = .ok e ∧ s.Denotes e v.type

/-- A method is what is written. -/
structure Reads (s : Naming) (decl : MethodDecl) (x : Method) : Prop where
  name : x.name = decl.name
  params : List.Forall₂ s.Types decl.params x.signature.params
  results : List.Forall₂ s.Types decl.results x.signature.results
  variadic : x.signature.variadic = true ↔ EndsVariadic decl.params

/-- Names stand for what they stood for, and shapes are as they were. -/
structure Extends (s s' : Naming) : Prop where
  own : s'.own = s.own
  declared : ∀ name n, s.declared name = some n → s'.declared name = some n
  foreign : ∀ package name n, s.foreign package name n → s'.foreign package name n
  kind : ∀ n k, s.kind n = k → k.isNamed = false → k ≠ .tuple [] → s'.kind n = k

variable {s s' : Naming} {e : TypeExpr} {n : NativeId}

/-- **An expression goes on to stand for its type.** -/
theorem Denotes.extend (h : s.Denotes e n) (hs : s.Extends s') : s'.Denotes e n := by
  -- on the expression; shapes and names are as they were
  induction h with
  | basic hname => exact .basic hname
  | error hname => exact .error hname
  | any hname => exact .any hname
  | declared hname hn => exact .declared hname (hs.declared _ _ hn)
  | unsafePointer hpointer => exact .unsafePointer hpointer
  | own hown hpointer hn => exact .own (hown.trans hs.own.symm) hpointer (hs.declared _ _ hn)
  | foreign hother hpointer hn =>
    exact .foreign (by rwa [hs.own]) hpointer (hs.foreign _ _ _ hn)
  | pointer _ hkind ih => exact .pointer ih (hs.kind _ _ hkind rfl (by simp))
  | slice _ hkind ih => exact .slice ih (hs.kind _ _ hkind rfl (by simp))
  | map _ _ hkind ihkey ihvalue => exact .map ihkey ihvalue (hs.kind _ _ hkind rfl (by simp))
  | emptyInterface => exact .emptyInterface
  | variadic _ hkind ih => exact .variadic ih (hs.kind _ _ hkind rfl (by simp))

/-- A type of another package is known by its name, and no shape is there twice. -/
structure Exact (s : Naming) : Prop where
  foreign : ∀ package name n n', s.foreign package name n → s.foreign package name n' → n = n'
  single : ∀ n n' k, s.kind n = k → s.kind n' = k → k.isNamed = false → k ≠ .tuple [] → n = n'

theorem ofName?_error : BasicKind.ofName? "error" = none := by
  decide

theorem ofName?_any : BasicKind.ofName? "any" = none := by
  decide

/-- **An expression stands for one type.**  By induction on what it stands for; its parts stand for
one type each. -/
theorem Denotes.unique (hs : s.Exact) {n' : NativeId} (h : s.Denotes e n) (h' : s.Denotes e n') :
    n = n' := by
  -- on one reading; the other one has to be of the same kind
  induction h generalizing n' with
  | @basic name kind hname =>
    cases h' with
    | basic hname' => rw [Option.some.inj (hname.symm.trans hname')]
    | error herror =>
      rw [herror, ofName?_error] at hname
      cases hname
    | any hany =>
      rw [hany, ofName?_any] at hname
      cases hname
    | declared hplain _ => exact absurd (Or.inl (by simp [hname])) hplain
  | error herror =>
    cases h' with
    | basic hname =>
      rw [herror, ofName?_error] at hname
      cases hname
    | error => rfl
    | any hany => exact absurd (herror.symm.trans hany) (by decide)
    | declared hplain _ => exact absurd (Or.inr (Or.inl herror)) hplain
  | any hany =>
    cases h' with
    | basic hname =>
      rw [hany, ofName?_any] at hname
      cases hname
    | error herror => exact absurd (hany.symm.trans herror) (by decide)
    | any => rfl
    | declared hplain _ => exact absurd (Or.inr (Or.inr hany)) hplain
  | declared hplain hn =>
    cases h' with
    | basic hname => exact absurd (Or.inl (by simp [hname])) hplain
    | error herror => exact absurd (Or.inr (Or.inl herror)) hplain
    | any hany => exact absurd (Or.inr (Or.inr hany)) hplain
    | declared _ hn' => exact Option.some.inj (hn.symm.trans hn')
  | unsafePointer hpointer =>
    cases h' with
    | unsafePointer => rfl
    | own _ hnot _ => exact absurd hpointer hnot
    | foreign _ hnot _ => exact absurd hpointer hnot
  | own hown hnot hn =>
    cases h' with
    | unsafePointer hpointer => exact absurd hpointer hnot
    | own _ _ hn' => exact Option.some.inj (hn.symm.trans hn')
    | foreign hother _ _ => exact absurd hown hother
  | foreign hother hnot hn =>
    cases h' with
    | unsafePointer hpointer => exact absurd hpointer hnot
    | own hown _ _ => exact absurd hown hother
    | foreign _ _ hn' => exact hs.foreign _ _ _ _ hn hn'
  | pointer _ hkind ih =>
    cases h' with
    | pointer helem' hkind' =>
      rw [← ih helem'] at hkind'
      exact hs.single _ _ _ hkind hkind' rfl (by simp)
  | slice _ hkind ih =>
    cases h' with
    | slice helem' hkind' =>
      rw [← ih helem'] at hkind'
      exact hs.single _ _ _ hkind hkind' rfl (by simp)
  | map _ _ hkind ihkey ihvalue =>
    cases h' with
    | map hkey' hvalue' hkind' =>
      rw [← ihkey hkey', ← ihvalue hvalue'] at hkind'
      exact hs.single _ _ _ hkind hkind' rfl (by simp)
  | emptyInterface =>
    cases h'
    rfl
  | variadic _ hkind ih =>
    cases h' with
    | variadic helem' hkind' =>
      rw [← ih helem'] at hkind'
      exact hs.single _ _ _ hkind hkind' rfl (by simp)

/-- A method that is read as written stays so. -/
theorem Reads.extend {decl : MethodDecl} {x : Method} (h : s.Reads decl x) (hs : s.Extends s') :
    s'.Reads decl x := by
  have htypes : ∀ decl v, s.Types decl v → s'.Types decl v :=
    fun decl v ⟨hname, e, hparse, he⟩ => ⟨hname, e, hparse, he.extend hs⟩
  exact ⟨h.name, h.params.imp htypes, h.results.imp htypes, h.variadic⟩

/-- Lists that agree have last elements that do. -/
theorem exists_getLast_of_forall₂ {α β : Type} {R : α → β → Prop} {l : List α} {l' : List β}
    (h : List.Forall₂ R l l') {a : α} (ha : l.getLast? = some a) :
    ∃ b, l'.getLast? = some b ∧ R a b := by
  induction h with
  | nil => cases ha
  | @cons x y l l' hR hrest ih =>
    -- the last elements correspond to each other
    cases hrest with
    | nil => exact ⟨y, rfl, Option.some.inj ha ▸ hR⟩
    | cons hnext hrest =>
      rw [List.getLast?_cons_cons] at ha ⊢
      exact ih ha

/-- **A variadic parameter has the slice of what is written behind the dots.** -/
theorem Reads.exists_slice {decl : MethodDecl} {x : Method} (h : s.Reads decl x) {last : VarDecl}
    {elem : TypeExpr} (hlast : decl.params.getLast? = some last)
    (hparse : TypeExpr.parse last.type = .ok (.variadic elem)) :
    ∃ v t, x.signature.params.getLast? = some v ∧ s.kind v.type = .slice t ∧ s.Denotes elem t := by
  obtain ⟨v, hv, _, e, he, hdenotes⟩ := exists_getLast_of_forall₂ h.params hlast
  obtain rfl := Except.ok.inj (hparse.symm.trans he)
  cases hdenotes with
  | @variadic _ _ t helem hkind => exact ⟨v, t, hv, hkind, helem⟩

end Naming

/-! ## §2. Reading on the way to a draft. -/

/-- What names stand for in a draft. -/
def Draft.naming (d : Draft) : Naming where
  own := d.name
  declared := d.lookup?
  foreign package name n := d.foreigns.lookup (package, name) = some n
  kind := d.types.kind

/-- While a draft grows names stand for what they stood for. -/
theorem Draft.Grows.naming {S : NativeId → Prop} {d e : Draft} (h : Draft.Grows S d e) :
    d.naming.Extends e.naming where
  own := h.name
  declared name n hn := by
    show e.declared.lookup name = some n
    rw [h.declared]
    exact hn
  foreign package name n hn := h.foreigns _ _ hn
  kind n k hk hname hne := by
    have hkind : d.types.kind n = k := hk
    -- an id that was never handed out would read as the empty tuple
    have hhas : d.types.Has n := Universe.has_of_kind_ne (by rw [hkind]; exact hne)
    exact (h.kept n hhas (Or.inl (by rw [hkind]; exact hname))).trans hkind

namespace Building

open Draft

variable {α β : Type} {d d₀ E E' : Draft} {m : Manifest} {e : TypeExpr} {n : NativeId}
  {source : String}

/-- The step adds types, and changes none. -/
def Adding (x : Building α) : Prop :=
  ∀ ⦃E a E'⦄, Runs x E a E' → Adds E E'

/-- What is echoed by itself adds types only. -/
theorem adding_of_echoes {x : Building α} {Q : Draft → Draft → α → α → Prop}
    (h : Echoes (fun _ _ => True) x x Q) : Adding x := by
  intro E a E' hrun
  obtain ⟨_, _, _, hE, _⟩ := h (akin_refl E) hrun
  exact hE

theorem adding_pure (a : α) : Adding (pure a) := by
  intro E b E' hrun
  obtain ⟨_, rfl⟩ := runs_pure.1 hrun
  exact Grows.refl _

/-- Steps in sequence add what each adds. -/
theorem Adding.bind {x : Building α} {f : α → Building β} (hx : Adding x)
    (hf : ∀ a, Adding (f a)) : Adding (x >>= f) := by
  intro E b E' hrun
  obtain ⟨a, E₁, hfirst, hrest⟩ := runs_bind.1 hrun
  exact (hx hfirst).trans (hf a hrest)

theorem adding_resolve (source : String) (e : TypeExpr) : Adding (resolve source e) :=
  adding_of_echoes (echo_resolve source e)

theorem adding_params (method : String) (decls : List VarDecl) : Adding (params method decls) :=
  adding_of_echoes (echo_params method decls)

theorem adding_method (decl : MethodDecl) : Adding (method decl) :=
  adding_of_echoes (echo_method decl)

theorem adding_shape (k : NativeKind) : Adding (shape (·.intern k)) := by
  intro E a E' hrun
  obtain rfl : (E.build (·.intern k)).2 = E' := congrArg Prod.snd (runs_modifyGet.1 hrun)
  exact adds_intern E k

/-- **A type expression is resolved to the type that it stands for.**  By induction on the
expression; what its parts stand for they still do when the shape is added. -/
theorem denotes_of_runs (h : Runs (resolve source e) E n E') : E'.naming.Denotes e n := by
  -- on the expression, along the branches of the resolution
  induction e generalizing E E' n with
  | unqualified name =>
    unfold resolve at h
    split at h
    · rename_i kind hkind
      obtain ⟨rfl, _⟩ := runs_pure.1 h
      exact .basic hkind
    · rename_i hkind
      split at h
      · rename_i herror
        obtain ⟨rfl, _⟩ := runs_pure.1 h
        exact .error herror
      · rename_i herror
        split at h
        · rename_i hany
          obtain ⟨rfl, _⟩ := runs_pure.1 h
          exact .any hany
        · rename_i hany
          obtain ⟨hn, rfl⟩ := runs_declared.1 h
          refine .declared ?_ hn
          rintro (h | h | h)
          · exact h hkind
          · exact herror h
          · exact hany h
  | qualified package name =>
    unfold resolve at h
    split at h
    · rename_i hpointer
      obtain ⟨rfl, _⟩ := runs_pure.1 h
      exact .unsafePointer hpointer
    · rename_i hpointer
      obtain ⟨_, _, hget, hrest⟩ := runs_bind.1 h
      obtain ⟨hread, hsame⟩ := runs_get.1 hget
      rw [hread, hsame] at hrest
      split at hrest
      · rename_i hown
        obtain ⟨hn, rfl⟩ := runs_declared.1 hrest
        exact .own hown hpointer hn
      · rename_i hother
        have hforeign := foreign_adds E package name
        rw [runs_modifyGet.1 hrest] at hforeign
        -- the name is there now, and the package is called as before
        obtain ⟨hadds, hn, _⟩ := hforeign
        refine .foreign ?_ hpointer hn
        show package ≠ E'.name
        rw [hadds.name]
        exact hother
  | pointer elem ih =>
    obtain ⟨t, E₁, helem, hshape⟩ := runs_bind.1 h
    exact .pointer ((ih helem).extend (adding_shape _ hshape).naming) (runs_shape hshape).2
  | slice elem ih =>
    obtain ⟨t, E₁, helem, hshape⟩ := runs_bind.1 h
    exact .slice ((ih helem).extend (adding_shape _ hshape).naming) (runs_shape hshape).2
  | map key value ihkey ihvalue =>
    obtain ⟨k, E₁, hkey, h⟩ := runs_bind.1 h
    obtain ⟨v, E₂, hvalue, hshape⟩ := runs_bind.1 h
    -- the key keeps its meaning while the value is read
    have hlater := (adding_resolve source value hvalue).trans (adding_shape _ hshape)
    exact .map ((ihkey hkey).extend hlater.naming)
      ((ihvalue hvalue).extend (adding_shape _ hshape).naming) (runs_shape hshape).2
  | emptyInterface =>
    obtain ⟨rfl, _⟩ := runs_pure.1 h
    exact .emptyInterface
  | variadic elem _ => exact absurd h not_runs_throw

/-- On the way to the draft `d` the step gives `a`. -/
def Gives (d : Draft) (x : Building α) (a : α) : Prop :=
  ∃ E E', Runs x E a E' ∧ Grows (fun _ => True) E' d

/-- What a sequence gives comes from what its first step gives. -/
theorem Gives.bind {x : Building α} {f : α → Building β} {b : β} (h : Gives d (x >>= f) b)
    (hf : ∀ a, Adding (f a)) : ∃ a, Gives d x a ∧ Gives d (f a) b := by
  obtain ⟨E, E', hrun, hlater⟩ := h
  obtain ⟨a, E₁, hfirst, hrest⟩ := runs_bind.1 hrun
  exact ⟨a, ⟨E, E₁, hfirst, (hf a hrest).grows.trans hlater⟩, E₁, E', hrest, hlater⟩

theorem Gives.eq_of_pure {a b : α} (h : Gives d (pure a) b) : b = a := by
  obtain ⟨E, E', hrun, _⟩ := h
  exact (runs_pure.1 hrun).1

/-- Steps along a list add what each adds. -/
theorem adding_mapM {f : α → Building β} (hf : ∀ a, Adding (f a)) (l : List α) :
    Adding (l.mapM f) := by
  induction l with
  | nil => exact adding_pure []
  | cons a l ih =>
    rw [List.mapM_cons]
    exact (hf a).bind fun b => ih.bind fun bs => adding_pure (b :: bs)

/-- Each element is read on the way. -/
theorem Gives.mapM {f : α → Building β} (hf : ∀ a, Adding (f a)) {l : List α} {bs : List β}
    (h : Gives d (l.mapM f) bs) : List.Forall₂ (fun a b => Gives d (f a) b) l bs := by
  induction l generalizing bs with
  | nil =>
    rw [h.eq_of_pure]
    exact .nil
  | cons a l ih =>
    obtain ⟨E, E', hrun, hlater⟩ := h
    obtain ⟨b, E₁, rest, hfirst, hrest, rfl⟩ := runs_mapM_cons.1 hrun
    exact .cons ⟨E, E₁, hfirst, (adding_mapM hf l hrest).grows.trans hlater⟩
      (ih ⟨E₁, E', hrest, hlater⟩)

/-- What is resolved on the way is what the expression stands for in the end. -/
theorem Gives.denotes (h : Gives d (resolve source e) n) : d.naming.Denotes e n := by
  obtain ⟨E, E', hrun, hlater⟩ := h
  exact (denotes_of_runs hrun).extend hlater.naming

/-- Parsing leaves the draft alone. -/
theorem Gives.parse {f : TypeExpr → Building β} {b : β}
    (h : Gives d (Building.parse source >>= f) b) :
    ∃ e, TypeExpr.parse source = .ok e ∧ Gives d (f e) b := by
  obtain ⟨E, E', hrun, hlater⟩ := h
  obtain ⟨e, _, hparse, hrest⟩ := runs_bind.1 hrun
  obtain ⟨he, rfl⟩ := runs_parse.1 hparse
  exact ⟨e, he, _, E', hrest, hlater⟩

/-- A result has the name and the type that are written. -/
theorem Gives.types {decl : VarDecl} {v : Var} (h : Gives d (result decl) v) :
    d.naming.Types decl v := by
  obtain ⟨n, htext, hv⟩ := h.bind fun _ => adding_pure _
  obtain rfl := hv.eq_of_pure
  obtain ⟨e, hparse, hresolve⟩ := htext.parse
  exact ⟨rfl, e, hparse, hresolve.denotes⟩

/-- A shape that is interned on the way. -/
theorem Gives.kind_eq {k : NativeKind} (h : Gives d (shape (·.intern k)) n)
    (hname : k.isNamed = false) (hne : k ≠ .tuple []) : d.types.kind n = k := by
  obtain ⟨E, E', hrun, hlater⟩ := h
  exact hlater.naming.kind n _ (runs_shape hrun).2 hname hne

/-- A single parameter ends the list with dots if its expression has them in front. -/
theorem endsVariadic_singleton {decl : VarDecl} :
    EndsVariadic [decl] ↔ ∃ elem, TypeExpr.parse decl.type = .ok (.variadic elem) := by
  constructor
  · rintro ⟨last, elem, hlast, hparse⟩
    obtain rfl : decl = last := Option.some.inj hlast
    exact ⟨elem, hparse⟩
  · rintro ⟨elem, hparse⟩
    exact ⟨decl, elem, rfl, hparse⟩

/-- **Parameters have the types that are written**, and are variadic if the last one is written
so.  By induction on the parameters. -/
theorem Gives.params {method : String} {decls : List VarDecl} {out : List Var × Bool}
    (h : Gives d (Building.params method decls) out) :
    List.Forall₂ d.naming.Types decls out.1 ∧ (out.2 = true ↔ EndsVariadic decls) := by
  induction decls generalizing out with
  | nil =>
    rw [h.eq_of_pure]
    refine ⟨.nil, fun hfalse => absurd hfalse Bool.false_ne_true, ?_⟩
    rintro ⟨_, _, hlast, _⟩
    cases hlast
  | cons decl rest ih =>
    unfold Building.params at h
    obtain ⟨e, hparse, hparam⟩ := h.parse
    split at hparam
    · rename_i elem
      split at hparam
      · rename_i hrest
        obtain rfl := List.isEmpty_iff.1 hrest
        obtain ⟨t, helem, hshape⟩ := hparam.bind fun t =>
          (adding_shape (.slice t)).bind fun _ => adding_pure _
        obtain ⟨n, hslice, hout⟩ := hshape.bind fun _ => adding_pure _
        rw [hout.eq_of_pure]
        have hkind : d.types.kind n = .slice t := hslice.kind_eq rfl (by simp)
        refine ⟨.cons ⟨rfl, _, hparse, .variadic helem.denotes hkind⟩ .nil, ?_⟩
        exact ⟨fun _ => endsVariadic_singleton.2 ⟨elem, hparse⟩, fun _ => rfl⟩
      · -- `...` in front of other parameters is a fault
        obtain ⟨_, _, hthrow, _⟩ := hparam
        exact absurd hthrow not_runs_throw
    · rename_i hplain
      obtain ⟨n, htype, hrest⟩ := hparam.bind fun n =>
        (adding_params method rest).bind fun _ => adding_pure _
      obtain ⟨more, hmore, hout⟩ := hrest.bind fun _ => adding_pure _
      obtain ⟨htypes, hvariadic⟩ := ih hmore
      rw [hout.eq_of_pure]
      refine ⟨.cons ⟨rfl, e, hparse, htype.denotes⟩ htypes, hvariadic.trans ?_⟩
      cases rest with
      | nil =>
        rw [endsVariadic_singleton]
        constructor
        · rintro ⟨_, _, hlast, _⟩
          cases hlast
        · rintro ⟨elem, helem⟩
          exact absurd (Except.ok.inj (hparse.symm.trans helem)) (hplain elem)
      | cons next rest =>
        unfold EndsVariadic
        rw [List.getLast?_cons_cons]

/-- **A method is read as it is written.** -/
theorem Gives.reads {decl : MethodDecl} {x : Method} (h : Gives d (method decl) x) :
    d.naming.Reads decl x := by
  have hresult : ∀ v, Adding (result v) := fun v =>
    (adding_of_echoes (echo_resolveText v.type)).bind fun _ => adding_pure _
  obtain ⟨ps, hparams, h⟩ := h.bind fun _ => (adding_mapM hresult _).bind fun _ => adding_pure _
  obtain ⟨rs, hresults, h⟩ := h.bind fun _ => adding_pure _
  obtain ⟨htypes, hvariadic⟩ := hparams.params
  rw [h.eq_of_pure]
  exact ⟨rfl, htypes, (hresults.mapM hresult).imp fun _ _ h => h.types, hvariadic⟩

/-! ## §3. What declared types hold. -/

/-- An interface has the methods that are written. -/
theorem Gives.interface {methods : List MethodDecl} {embeds : List String}
    (h : Gives d (target (.interface methods embeds)) n) :
    ∃ shape, d.types.kind n = .interface shape ∧
      List.Forall₂ d.naming.Reads methods shape.methods := by
  have htexts : Adding (embeds.mapM resolveText) :=
    adding_mapM (fun text => adding_of_echoes (echo_resolveText text)) embeds
  obtain ⟨xs, hmethods, h⟩ := h.bind fun _ => htexts.bind fun es => adding_shape (.interface _)
  obtain ⟨es, _, hshape⟩ := h.bind fun es => adding_shape (.interface _)
  exact ⟨⟨xs, es⟩, hshape.kind_eq rfl (by simp),
    (hmethods.mapM adding_method).imp fun _ _ h => h.reads⟩

/-- The methods of a list are read, and put behind those that a type has. -/
theorem methods_of_runs {id : NativeId} {decls : List MethodDecl} {k : NamedType}
    (hk : E.types.kind id = .named k)
    (hrun : Runs (decls.forM fun decl => do
      let x ← method decl
      modify (·.addMethod id x)) E ⟨⟩ E') :
    Grows (· = id) E E' ∧ ∃ xs, E'.types.kind id = .named { k with methods := k.methods ++ xs } ∧
      ∀ d, Grows (fun _ => True) E' d → List.Forall₂ (fun decl x => Gives d (method decl) x)
        decls xs := by
  induction decls generalizing E k with
  | nil =>
    obtain rfl := runs_forM_nil.1 hrun
    refine ⟨Grows.refl _, [], ?_, fun _ _ => .nil⟩
    rw [List.append_nil]
    exact hk
  | cons decl decls ih =>
    obtain ⟨E₂, hfirst, hrest⟩ := runs_forM_cons.1 hrun
    obtain ⟨x, E₁, hmethod, hwrite⟩ := runs_bind.1 hfirst
    obtain rfl := runs_modify.1 hwrite
    -- reading a method adds types, and leaves the one that is defined as it is
    have hadds := adding_method decl hmethod
    have hk₁ : E₁.types.kind id = .named k :=
      (hadds.kept id (Universe.has_of_named hk) (Or.inr not_false)).trans hk
    have hwritten := grows_amend E₁ id fun k => { k with methods := k.methods ++ [x] }
    obtain ⟨hgrows, xs, hxs, hgives⟩ := ih (Universe.kind_modifyNamed_self
      (fun k => { k with methods := k.methods ++ [x] }) hk₁) hrest
    refine ⟨hadds.grows.trans (hwritten.trans hgrows), x :: xs, ?_, fun d hd => ?_⟩
    · rw [hxs, List.append_assoc]
      rfl
    · have hlater := (hwritten.trans hgrows).mono (T := fun _ => True) fun _ _ => trivial
      exact .cons ⟨E, E₁, hmethod, hlater.trans hd⟩ (hgives d hd)

/-- **What a declared type holds** after the walk: its name, what it was declared to be, and the
methods that are listed for it. -/
theorem Route.exists_defined (hd : Route m d₀ d) {decl : TypeDecl} (hdecl : decl ∈ m.types) :
    ∃ id k, d.lookup? decl.name = some id ∧ d.types.kind id = .named k ∧ k.name = decl.name ∧
      Gives d (target decl.underlying) k.underlying ∧
      List.Forall₂ (fun decl x => Gives d (method decl) x) decl.methods k.methods := by
  obtain ⟨id, E₁, E₂, hid, hv⟩ := hd.types decl hdecl
  have hk := hd.undefined hid hv
  have hrun : Runs (type id decl) E₁ ⟨⟩ E₂ := hv.visit
  unfold type at hrun
  rw [underlying_eq] at hrun
  -- the visit defines the type, then adds its methods
  obtain ⟨_, F, hdefine, hmethods⟩ := runs_bind.1 hrun
  obtain ⟨n, F₁, htarget, hwrite⟩ := runs_bind.1 hdefine
  obtain rfl := runs_modify.1 hwrite
  have hadds := adding_of_echoes (echo_target decl.underlying) htarget
  have hk₁ : F₁.types.kind id = .named ⟨decl.name, some m.path, .undefined, []⟩ :=
    (hadds.kept id (Universe.has_of_named hk) (Or.inr not_false)).trans hk
  obtain ⟨hgrows, xs, hxs, hgives⟩ :=
    methods_of_runs (Universe.kind_modifyNamed_self _ hk₁) hmethods
  have hafter : Grows (fun _ => True) E₂ d := hv.after.mono fun _ _ => trivial
  -- what is added later changes nothing of what was read
  have hlater := ((grows_amend F₁ id fun k => { k with underlying := n }).trans hgrows).mono
    (T := fun _ => True) fun _ _ => trivial
  refine ⟨id, _, (hd.lookup_eq _).trans hid, hv.after.kind_of_named hxs, rfl,
    ⟨E₁, F₁, htarget, hlater.trans hafter⟩, hgives d hafter⟩

end Building

end RpcSchema
