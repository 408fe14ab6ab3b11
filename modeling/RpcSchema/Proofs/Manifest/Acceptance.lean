/-
  RpcSchema.Proofs.Manifest.Acceptance
  ────────────────────────────────────
  **WHAT THE WALK OVER A MANIFEST ACCEPTS.**

  A manifest holds type expressions at many places.  Each has to parse,
  the names in it have to be known, and `...` is for the last parameter of
  a method only; and a field without a name needs an expression that names
  a type.  Nothing else can go wrong on the walk, and whether it does at
  one place does not depend on what was read at the others.

  This is a judgement about steps.  `Decides m x P` says that on a draft
  that declares the names of `m` the step `x` succeeds if and only if `P`
  holds, and leaves such a draft.  Steps that follow each other decide the
  conjunction.

  Main statement: `walk_succeeds_iff`.
-/
import RpcSchema.Proofs.Manifest.Constants
import RpcSchema.Proofs.TypeExpr.Grammar

namespace RpcSchema

/-! ## §1. Expressions. -/

namespace TypeExpr

/-- A name that need not be declared. -/
def IsPredeclared (name : String) : Prop :=
  BasicKind.ofName? name ≠ none ∨ name = "error" ∨ name = "any"

/-- A possibly qualified name under any number of pointers. -/
inductive NamesType : TypeExpr → Prop
  | unqualified (name : String) : NamesType (.unqualified name)
  | qualified (package name : String) : NamesType (.qualified package name)
  | pointer {elem : TypeExpr} (helem : NamesType elem) : NamesType (.pointer elem)

/-- There is no `...` in the expression. -/
def Plain : TypeExpr → Prop
  | .unqualified _ | .qualified _ _ | .emptyInterface => True
  | .pointer elem | .slice elem => elem.Plain
  | .map key value => key.Plain ∧ value.Plain
  | .variadic _ => False

variable {e : TypeExpr} {source : String}

/-- An expression names a type if a base name can be taken from it. -/
theorem namesType_iff : e.NamesType ↔ ∃ name, e.baseName? = some name := by
  constructor
  · intro h
    induction h with
    | unqualified name => exact ⟨name, rfl⟩
    | qualified package name => exact ⟨name, rfl⟩
    | pointer _ ih => exact ih
  · induction e with
    | unqualified name => exact fun _ => .unqualified name
    | qualified package name => exact fun _ => .qualified package name
    | pointer elem ih => exact fun h => .pointer (ih h)
    -- a list or a map has no base name
    | slice | map | emptyInterface | variadic =>
      rintro ⟨name, hname⟩
      cases hname

/-- What spells a type without dots in front is plain. -/
theorem plain_of_spells {text : List Char} (h : Spells e text) : e.Plain := by
  induction h with
  | unqualified | qualified | emptyInterface => trivial
  | pointer _ _ ih => exact ih
  | slice _ _ _ ih => exact ih
  | map _ _ _ _ _ ihkey ihvalue => exact ⟨ihkey, ihvalue⟩

/-- **What is parsed holds `...` in front of it or nowhere.** -/
theorem plain_of_parse (h : parse source = .ok e) :
    e.Plain ∨ ∃ elem, e = .variadic elem ∧ elem.Plain := by
  have hwhole := parse_eq_ok_iff.1 h
  generalize source.toList = text at hwhole
  obtain ⟨houter, _⟩ := hwhole
  cases houter with
  | plain htext => exact Or.inl (plain_of_spells htext)
  | variadic _ _ helem => exact Or.inr ⟨_, rfl, plain_of_spells helem⟩

/-- An expression that was parsed is plain unless it is written with dots in front. -/
theorem plain_iff_of_parse (h : parse source = .ok e) :
    e.Plain ↔ ∀ elem, e ≠ .variadic elem := by
  constructor
  · rintro hplain elem rfl
    exact hplain
  · intro hne
    rcases plain_of_parse h with hplain | ⟨elem, rfl, _⟩
    · exact hplain
    · exact absurd rfl (hne elem)

end TypeExpr

/-! ## §2. The expressions of a manifest. -/

/-- A place in a manifest where a type expression stands. -/
structure Site where
  text : String
  /-- It is the type of the last parameter of a method. -/
  last : Bool
  deriving DecidableEq, Repr

/-- The place of a type expression of a field or a result, where no dots may stand. -/
def VarDecl.site (decl : VarDecl) : Site :=
  ⟨decl.type, false⟩

/-- The types of the parameters of a method. -/
def paramSites : List VarDecl → List Site
  | [] => []
  | decl :: rest => ⟨decl.type, rest.isEmpty⟩ :: paramSites rest

/-- The places of the type expressions of a method. -/
def MethodDecl.sites (decl : MethodDecl) : List Site :=
  paramSites decl.params ++ decl.results.map VarDecl.site

/-- Those of what a type is declared as. -/
def UnderlyingDecl.sites : UnderlyingDecl → List Site
  | .struct fields => fields.map VarDecl.site
  | .interface methods embeds =>
    methods.flatMap MethodDecl.sites ++ embeds.map fun text => ⟨text, false⟩
  | .type text => [⟨text, false⟩]

/-- The fields of a struct. -/
def UnderlyingDecl.fields : UnderlyingDecl → List VarDecl
  | .struct fields => fields
  | _ => []

/-- Those of a type: of what it is declared as, and of its methods. -/
def TypeDecl.sites (decl : TypeDecl) : List Site :=
  decl.underlying.sites ++ decl.methods.flatMap MethodDecl.sites

/-- A field without a name has an expression that names a type. -/
def VarDecl.Embeds (decl : VarDecl) : Prop :=
  decl.name = none → ∀ e, TypeExpr.parse decl.type = .ok e → e.NamesType

namespace Manifest

/-- All type expressions of a manifest. -/
def sites (m : Manifest) : List Site :=
  m.types.flatMap TypeDecl.sites ++ m.constants.map fun decl => ⟨decl.type, false⟩

/-- The manifest declares a type of the name. -/
def Declares (m : Manifest) (name : String) : Prop :=
  ∃ decl ∈ m.types, decl.name = name

/-- The names in an expression are known: a name that stands alone is predeclared or declared, and
one behind the short name of the package is declared. -/
def Knows (m : Manifest) : TypeExpr → Prop
  | .unqualified name => TypeExpr.IsPredeclared name ∨ m.Declares name
  | .qualified package name =>
    package = m.shortName → (package = "unsafe" ∧ name = "Pointer") ∨ m.Declares name
  | .pointer elem | .slice elem | .variadic elem => m.Knows elem
  | .map key value => m.Knows key ∧ m.Knows value
  | .emptyInterface => True

/-- What stands at a place may stand there. -/
def Admits (m : Manifest) (t : Site) : Prop :=
  ∃ e, TypeExpr.parse t.text = .ok e ∧ m.Knows e ∧ ∀ elem, e = .variadic elem → t.last = true

variable {m : Manifest}

/-- Where no `...` may stand. -/
theorem admits_iff {text : String} : m.Admits ⟨text, false⟩ ↔
    ∃ e, TypeExpr.parse text = .ok e ∧ m.Knows e ∧ e.Plain := by
  refine exists_congr fun e => and_congr_right fun hparse => and_congr_right fun _ => ?_
  rw [TypeExpr.plain_iff_of_parse hparse]
  exact forall_congr' fun elem =>
    ⟨fun h heq => Bool.false_ne_true (h heq), fun h heq => absurd heq h⟩

end Manifest

namespace Building

open Draft

variable {m : Manifest} {α β : Type} {x : Building α} {P Q : Prop}

/-! ## §3. When steps succeed. -/

/-- The draft declares the names of the manifest. -/
structure Within (m : Manifest) (E : Draft) : Prop where
  name : E.name = m.shortName
  names : ∀ name, (∃ id, E.lookup? name = some id) ↔ m.Declares name

/-- Which names a draft declares depends on its name and its declarations only. -/
theorem Within.congr {E E' : Draft} (h : Within m E) (hname : E'.name = E.name)
    (hdeclared : E'.declared = E.declared) : Within m E' := by
  refine ⟨hname.trans h.name, fun name => ?_⟩
  rw [← h.names]
  unfold lookup?
  rw [hdeclared]

/-- On a draft that declares the names of the manifest the step succeeds if and only if `P` holds,
and leaves such a draft. -/
structure Decides (m : Manifest) (x : Building α) (P : Prop) : Prop where
  succeeds : ∀ {E}, Within m E → ((∃ a E', Runs x E a E') ↔ P)
  within : ∀ {E a E'}, Within m E → Runs x E a E' → Within m E'

theorem Decides.congr (h : Decides m x P) (hPQ : P ↔ Q) : Decides m x Q :=
  ⟨fun hE => (h.succeeds hE).trans hPQ, h.within⟩

/-- To return always succeeds. -/
theorem decides_pure (a : α) : Decides m (pure a) True where
  succeeds _ := ⟨fun _ => trivial, fun _ => ⟨a, _, runs_pure.2 ⟨rfl, rfl⟩⟩⟩
  within hE hrun := by
    obtain ⟨_, rfl⟩ := runs_pure.1 hrun
    exact hE

theorem decides_throw (e : LoadError) : Decides m (throw e : Building α) False where
  succeeds _ := ⟨fun ⟨_, _, hrun⟩ => not_runs_throw hrun, False.elim⟩
  within _ hrun := absurd hrun not_runs_throw

/-- **Steps that follow each other decide the conjunction.** -/
theorem Decides.bind {f : α → Building β} (hx : Decides m x P) (hf : ∀ a, Decides m (f a) Q) :
    Decides m (x >>= f) (P ∧ Q) where
  succeeds {E} hE := by
    constructor
    · -- the second step is on a draft that the first one left
      rintro ⟨b, E', hrun⟩
      obtain ⟨a, E₁, hfirst, hrest⟩ := runs_bind.1 hrun
      exact ⟨(hx.succeeds hE).1 ⟨a, E₁, hfirst⟩,
        ((hf a).succeeds (hx.within hE hfirst)).1 ⟨b, E', hrest⟩⟩
    · rintro ⟨hP, hQ⟩
      obtain ⟨a, E₁, hfirst⟩ := (hx.succeeds hE).2 hP
      obtain ⟨b, E', hrest⟩ := ((hf a).succeeds (hx.within hE hfirst)).2 hQ
      exact ⟨b, E', runs_bind.2 ⟨a, E₁, hfirst, hrest⟩⟩
  within hE hrun := by
    obtain ⟨a, E₁, hfirst, hrest⟩ := runs_bind.1 hrun
    exact (hf a).within (hx.within hE hfirst) hrest

/-- What is only put together cannot fail. -/
theorem Decides.map (hx : Decides m x P) (f : α → β) : Decides m (x >>= fun a => pure (f a)) P :=
  (hx.bind fun a => decides_pure (f a)).congr (and_iff_left trivial)

/-- To look at the draft succeeds if what follows does. -/
theorem decides_get {f : Draft → Building α} (h : ∀ E, Within m E → Decides m (f E) P) :
    Decides m (get >>= f) P where
  succeeds {E} hE := by
    -- what is looked at is the draft itself
    rw [← (h E hE).succeeds hE]
    constructor
    · rintro ⟨a, E', hrun⟩
      obtain ⟨_, _, hget, hrest⟩ := runs_bind.1 hrun
      obtain ⟨rfl, rfl⟩ := runs_get.1 hget
      exact ⟨a, E', hrest⟩
    · rintro ⟨a, E', hrest⟩
      exact ⟨a, E', runs_bind.2 ⟨E, E, runs_get.2 ⟨rfl, rfl⟩, hrest⟩⟩
  within {E a E'} hE hrun := by
    obtain ⟨_, _, hget, hrest⟩ := runs_bind.1 hrun
    obtain ⟨rfl, rfl⟩ := runs_get.1 hget
    exact (h _ hE).within hE hrest

/-- A step that declares nothing always succeeds. -/
theorem decides_modifyGet {f : Draft → α × Draft}
    (hname : ∀ E, (f E).2.name = E.name) (hdeclared : ∀ E, (f E).2.declared = E.declared) :
    Decides m (modifyGet f) True where
  succeeds {E} _ := ⟨fun _ => trivial, fun _ => ⟨(f E).1, (f E).2, runs_modifyGet.2 rfl⟩⟩
  within {E a E'} hE hrun := by
    have heq := runs_modifyGet.1 hrun
    obtain rfl : (f E).2 = E' := congrArg Prod.snd heq
    exact hE.congr (hname E) (hdeclared E)

/-- What was read is written to the draft, and no name with it. -/
theorem Decides.write (hx : Decides m x P) {f : α → Draft → Draft}
    (hname : ∀ a E, (f a E).name = E.name) (hdeclared : ∀ a E, (f a E).declared = E.declared) :
    Decides m (x >>= fun a => modify (f a)) P :=
  (hx.bind fun a => show Decides m (modifyGet fun E => (PUnit.unit, f a E)) True from
    decides_modifyGet (hname a) (hdeclared a)).congr (and_iff_left trivial)

/-- **Steps along a list succeed if each does.** -/
theorem decides_mapM {f : α → Building β} {P : α → Prop} (h : ∀ a, Decides m (f a) (P a))
    (l : List α) : Decides m (l.mapM f) (∀ a ∈ l, P a) := by
  induction l with
  | nil => exact (decides_pure []).congr (by simp)
  | cons a l ih =>
    rw [List.mapM_cons]
    exact ((h a).bind fun b => ih.map (b :: ·)).congr (List.forall_mem_cons).symm

theorem decides_forM {f : α → Building Unit} {P : α → Prop} (h : ∀ a, Decides m (f a) (P a))
    (l : List α) : Decides m (l.forM f) (∀ a ∈ l, P a) := by
  induction l with
  | nil => exact (decides_pure ()).congr (by simp)
  | cons a l ih => exact ((h a).bind fun _ => ih).congr (List.forall_mem_cons).symm

/-! ## §4. When expressions are read. -/

theorem decides_shape (f : Universe → NativeId × Universe) : Decides m (shape f) True :=
  decides_modifyGet (fun _ => rfl) fun _ => rfl

/-- To look a name up succeeds if the manifest declares it. -/
theorem decides_declared (name written : String) :
    Decides m (declared name written) (m.Declares name) where
  succeeds {E} hE := by
    rw [← hE.names]
    constructor
    · rintro ⟨id, _, hrun⟩
      exact ⟨id, (runs_declared.1 hrun).1⟩
    · rintro ⟨id, hid⟩
      exact ⟨id, E, runs_declared.2 ⟨hid, rfl⟩⟩
  within hE hrun := by
    obtain ⟨_, rfl⟩ := runs_declared.1 hrun
    exact hE

/-- **An expression is resolved if its names are known and there is no `...` in it.**  By induction
on the expression. -/
theorem decides_resolve (source : String) (e : TypeExpr) :
    Decides m (resolve source e) (m.Knows e ∧ e.Plain) := by
  -- on the expression, whose parts are resolved before it
  induction e with
  | unqualified name =>
    refine Decides.congr (P := TypeExpr.IsPredeclared name ∨ m.Declares name) ?_
      (and_iff_left trivial).symm
    unfold resolve
    split
    · rename_i kind hkind
      exact (decides_pure _).congr ⟨fun _ => Or.inl (Or.inl (by simp [hkind])), fun _ => trivial⟩
    · rename_i hkind
      split
      · -- basic kinds first, then the builtin names, then the declared ones
        rename_i herror
        exact (decides_pure _).congr ⟨fun _ => Or.inl (Or.inr (Or.inl herror)), fun _ => trivial⟩
      · rename_i herror
        split
        · rename_i hany
          exact (decides_pure _).congr ⟨fun _ => Or.inl (Or.inr (Or.inr hany)), fun _ => trivial⟩
        · rename_i hany
          refine (decides_declared name name).congr ⟨Or.inr, fun h => h.resolve_left ?_⟩
          rintro (h | h | h)
          · exact h hkind
          · exact herror h
          · exact hany h
  | qualified package name =>
    refine Decides.congr (P := m.Knows (.qualified package name)) ?_ (and_iff_left trivial).symm
    unfold resolve
    split
    · rename_i hpointer
      exact (decides_pure _).congr ⟨fun _ _ => Or.inl hpointer, fun _ => trivial⟩
    · rename_i hpointer
      refine decides_get fun E hE => ?_
      rw [hE.name]
      split
      · rename_i hown
        exact (decides_declared name _).congr
          ⟨fun h _ => Or.inr h, fun h => (h hown).resolve_left hpointer⟩
      · -- a name of another package is added if need be
        rename_i hother
        have hadds := fun E : Draft => (foreign_adds E package name).1
        exact (decides_modifyGet (fun E => (hadds E).name) fun E => (hadds E).declared).congr
          ⟨fun _ hown => absurd hown hother, fun _ => trivial⟩
  | pointer elem ih =>
    unfold resolve
    exact (ih.bind fun id => decides_shape _).congr (and_iff_left trivial)
  | slice elem ih =>
    unfold resolve
    exact (ih.bind fun id => decides_shape _).congr (and_iff_left trivial)
  | map key value ihkey ihvalue =>
    unfold resolve
    have hvalue := fun key : NativeId => (ihvalue.bind fun value =>
      decides_shape (m := m) (·.map key value)).congr (and_iff_left trivial)
    refine (ihkey.bind hvalue).congr ?_
    exact and_and_and_comm
  | emptyInterface =>
    unfold resolve
    exact (decides_pure _).congr (and_iff_left trivial).symm
  | variadic elem _ =>
    unfold resolve
    exact (decides_throw _).congr ⟨False.elim, fun h => h.2⟩

/-- Parsing goes on with what was parsed. -/
theorem decides_parse {source : String} {f : TypeExpr → Building α} {P : TypeExpr → Prop}
    (h : ∀ e, TypeExpr.parse source = .ok e → Decides m (f e) (P e)) :
    Decides m (parse source >>= f) (∃ e, TypeExpr.parse source = .ok e ∧ P e) where
  succeeds {E} hE := by
    constructor
    · rintro ⟨a, E', hrun⟩
      obtain ⟨e, _, hparse, hrest⟩ := runs_bind.1 hrun
      obtain ⟨he, rfl⟩ := runs_parse.1 hparse
      exact ⟨e, he, ((h e he).succeeds hE).1 ⟨a, E', hrest⟩⟩
    · rintro ⟨e, he, hP⟩
      obtain ⟨a, E', hrest⟩ := ((h e he).succeeds hE).2 hP
      exact ⟨a, E', runs_bind.2 ⟨e, E, runs_parse.2 ⟨he, rfl⟩, hrest⟩⟩
  within hE hrun := by
    obtain ⟨e, _, hparse, hrest⟩ := runs_bind.1 hrun
    obtain ⟨he, rfl⟩ := runs_parse.1 hparse
    exact (h e he).within hE hrest

/-- **A text is read where it may stand.** -/
theorem decides_resolveText (source : String) :
    Decides m (resolveText source) (m.Admits ⟨source, false⟩) :=
  (decides_parse fun e _ => decides_resolve source e).congr Manifest.admits_iff.symm

/-! ## §5. When declarations are read. -/

/-- A field is read if its type is, and if an embedded one names a type. -/
theorem decides_field (decl : VarDecl) :
    Decides m (field decl) (m.Admits decl.site ∧ decl.Embeds) := by
  refine (decides_parse (P := fun e => (m.Knows e ∧ e.Plain) ∧ (decl.name = none → e.NamesType))
    fun e _ => (decides_resolve decl.type e).bind fun type => ?_).congr ?_
  · split
    · rename_i name hname
      exact (decides_pure _).congr ⟨fun _ hnone => by simp [hname] at hnone, fun _ => trivial⟩
    · rename_i hname
      split
      · rename_i name hbase
        exact (decides_pure _).congr
          ⟨fun _ _ => TypeExpr.namesType_iff.2 ⟨name, hbase⟩, fun _ => trivial⟩
      · rename_i hbase
        refine (decides_throw _).congr ⟨False.elim, fun h => ?_⟩
        -- an embedded field takes its name from its type
        obtain ⟨name, hname⟩ := TypeExpr.namesType_iff.1 (h hname)
        rw [hbase] at hname
        cases hname
  · unfold VarDecl.site
    rw [Manifest.admits_iff]
    constructor
    · rintro ⟨e, hparse, hknown, hnamed⟩
      refine ⟨⟨e, hparse, hknown⟩, fun hnone e' hparse' => ?_⟩
      -- a text has one expression
      obtain rfl := Except.ok.inj (hparse.symm.trans hparse')
      exact hnamed hnone
    · rintro ⟨⟨e, hparse, hknown⟩, hembeds⟩
      exact ⟨e, hparse, hknown, fun hnone => hembeds hnone e hparse⟩

/-- **Parameters are read if each may stand where it does.**  By induction on the parameters, of
which the last is the one with none behind it. -/
theorem decides_params (method : String) (decls : List VarDecl) :
    Decides m (params method decls) (∀ t ∈ paramSites decls, m.Admits t) := by
  induction decls with
  | nil =>
    unfold params
    exact (decides_pure _).congr (by simp [paramSites])
  | cons decl rest ih =>
    unfold params
    -- one parameter after the other
    refine Decides.congr (P := ∃ e, TypeExpr.parse decl.type = .ok e ∧
      (m.Knows e ∧ ∀ elem, e = .variadic elem → rest.isEmpty = true) ∧
        ∀ t ∈ paramSites rest, m.Admits t) (decides_parse fun e he => ?_) ?_
    · split
      · rename_i elem
        -- a second `...` behind the first one does not parse
        have helem : elem.Plain := by
          rcases TypeExpr.plain_of_parse he with hplain | ⟨_, heq, hplain⟩
          · exact hplain.elim
          · rwa [TypeExpr.variadic.inj heq]
        split
        · rename_i hrest
          obtain rfl := List.isEmpty_iff.1 hrest
          have hslice := fun id : NativeId => (decides_shape (m := m) (·.slice id)).map
            fun type => ([(⟨decl.name, type⟩ : Var)], true)
          refine ((decides_resolve decl.type elem).bind hslice).congr ?_
          simp only [helem, and_true, paramSites, List.not_mem_nil, false_implies, implies_true]
          exact (and_iff_left fun _ _ => rfl).symm
        · rename_i hrest
          exact (decides_throw _).congr ⟨False.elim, fun h => absurd (h.1.2 elem rfl) hrest⟩
      · rename_i hvariadic
        refine ((decides_resolve decl.type e).bind fun type => ih.map
          fun out => ((⟨decl.name, type⟩ : Var) :: out.1, out.2)).congr ?_
        rw [TypeExpr.plain_iff_of_parse he]
        refine and_congr_left fun _ => and_congr_right fun _ => ?_
        exact ⟨fun hne elem heq => absurd heq (hne elem), fun _ elem heq => hvariadic elem heq⟩
    · show _ ↔ ∀ t ∈ (⟨decl.type, rest.isEmpty⟩ : Site) :: paramSites rest, m.Admits t
      rw [List.forall_mem_cons]
      constructor
      · rintro ⟨e, he, hadmits, hrest⟩
        exact ⟨⟨e, he, hadmits⟩, hrest⟩
      · rintro ⟨⟨e, he, hadmits⟩, hrest⟩
        exact ⟨e, he, hadmits, hrest⟩

/-- A method is read if all its types are read. -/
theorem decides_method (decl : MethodDecl) :
    Decides m (method decl) (∀ t ∈ decl.sites, m.Admits t) := by
  have hresult : ∀ v : VarDecl, Decides m (result v) (m.Admits v.site) := fun v =>
    (decides_resolveText v.type).map fun type => (⟨v.name, type⟩ : Var)
  refine ((decides_params decl.name decl.params).bind fun ps =>
    (decides_mapM hresult decl.results).map fun results =>
      (⟨decl.name, ps.1, results, ps.2⟩ : Method)).congr ?_
  rw [MethodDecl.sites, List.forall_mem_append, List.forall_mem_map]

/-- A statement about all that comes from a list, by what it comes from. -/
theorem forall_mem_flatMap {γ δ : Type} {f : γ → List δ} {l : List γ} {P : δ → Prop} :
    (∀ b ∈ l.flatMap f, P b) ↔ ∀ a ∈ l, ∀ b ∈ f a, P b := by
  constructor
  · exact fun h a ha b hb => h b (List.mem_flatMap.2 ⟨a, ha, hb⟩)
  · intro h b hb
    obtain ⟨a, ha, hb⟩ := List.mem_flatMap.1 hb
    exact h a ha b hb

/-- What a type is declared as is read if all types in it are, and if embedded fields name types. -/
theorem decides_target (decl : UnderlyingDecl) : Decides m (target decl)
    ((∀ t ∈ decl.sites, m.Admits t) ∧ ∀ f ∈ decl.fields, f.Embeds) := by
  -- each kind of declaration has its own places
  cases decl with
  | struct fields =>
    unfold target
    refine ((decides_mapM decides_field fields).bind fun fs => decides_shape _).congr ?_
    rw [and_iff_left trivial]
    show _ ↔ (∀ t ∈ fields.map VarDecl.site, m.Admits t) ∧ ∀ f ∈ fields, f.Embeds
    rw [List.forall_mem_map, ← forall₂_and]
  | interface methods embeds =>
    unfold target
    refine ((decides_mapM decides_method methods).bind fun ms =>
      (decides_mapM decides_resolveText embeds).bind fun es => decides_shape _).congr ?_
    rw [and_iff_left trivial]
    show _ ↔ (∀ t ∈ methods.flatMap MethodDecl.sites ++ embeds.map fun text => ⟨text, false⟩,
      m.Admits t) ∧ ∀ f ∈ ([] : List VarDecl), f.Embeds
    rw [List.forall_mem_append, forall_mem_flatMap, List.forall_mem_map]
    exact (and_iff_left fun f hf => absurd hf List.not_mem_nil).symm
  | type text =>
    refine (decides_resolveText text).congr ?_
    show _ ↔ (∀ t ∈ [(⟨text, false⟩ : Site)], m.Admits t) ∧ ∀ f ∈ ([] : List VarDecl), f.Embeds
    rw [List.forall_mem_singleton]
    exact (and_iff_left fun f hf => absurd hf List.not_mem_nil).symm

/-- **A type is defined if every expression of it may stand where it does.** -/
theorem decides_type (id : NativeId) (decl : TypeDecl) : Decides m (type id decl)
    ((∀ t ∈ decl.sites, m.Admits t) ∧ ∀ f ∈ decl.underlying.fields, f.Embeds) := by
  have hdefine : Decides m (underlying id decl.underlying)
      ((∀ t ∈ decl.underlying.sites, m.Admits t) ∧ ∀ f ∈ decl.underlying.fields, f.Embeds) := by
    rw [underlying_eq]
    exact (decides_target decl.underlying).write (fun _ _ => rfl) fun _ _ => rfl
  -- a method is read, then added, which cannot fail
  have hmethod : ∀ d : MethodDecl, Decides m (method d >>= fun x => modify (·.addMethod id x))
      (∀ t ∈ d.sites, m.Admits t) := fun d =>
    (decides_method d).write (fun _ _ => rfl) fun _ _ => rfl
  unfold type
  refine (hdefine.bind fun _ => decides_forM hmethod decl.methods).congr ?_
  rw [TypeDecl.sites, List.forall_mem_append, forall_mem_flatMap]
  exact and_right_comm

theorem decides_constant (decl : ConstDecl) :
    Decides m (constant decl) (m.Admits ⟨decl.type, false⟩) := by
  unfold constant
  exact (decides_resolveText decl.type).write (fun _ _ => rfl) fun _ _ => rfl

/-! ## §6. When the walk succeeds. -/

/-- Declaring a list of types declares no other names. -/
theorem lookup_of_declareAll {decls : List TypeDecl} {d d' : Draft} {ids : List NativeId}
    (hrun : Runs (declareAll decls) d ids d') {name : String} {id : NativeId}
    (hid : d'.lookup? name = some id) :
    d.lookup? name = some id ∨ ∃ decl ∈ decls, decl.name = name := by
  -- on the declarations that are left
  induction decls generalizing d ids with
  | nil =>
    obtain ⟨_, rfl⟩ := runs_mapM_nil.1 hrun
    exact Or.inl hid
  | cons decl decls ih =>
    obtain ⟨_, d₁, rest, hfirst, hrest, _⟩ := runs_mapM_cons.1 hrun
    obtain rfl : (d.declare decl.name).2 = d₁ := congrArg Prod.snd (runs_modifyGet.1 hfirst)
    rcases ih hrest with hid | ⟨other, hmem, hname⟩
    · by_cases hself : name = decl.name
      · exact Or.inr ⟨decl, List.mem_cons_self, hself.symm⟩
      · refine Or.inl ?_
        -- a name that is declared again keeps its type
        rcases d.declare_cases decl.name with ⟨_, _, heq⟩ | ⟨_, heq⟩
        · rw [heq] at hid
          exact hid
        · rw [heq] at hid
          replace hid : (d.declared ++ [(decl.name, NativeId.entry d.types.size)]).lookup name
            = some id := hid
          rw [List.lookup_append, Option.or_eq_some_iff] at hid
          rcases hid with hid | ⟨_, hid⟩
          · exact hid
          · have hother : (name == decl.name) = false := by simpa using hself
            simp [List.lookup_cons, hother] at hid
    · exact Or.inr ⟨other, List.mem_cons_of_mem decl hmem, hname⟩

/-- Once the types are declared the names are those of the manifest. -/
theorem within_of_declareAll {ids : List NativeId} {d : Draft}
    (hrun : Runs (declareAll m.types) (start m.path m.name) ids d)
    (h : Declares m.types (start m.path m.name) ids d) : Within m d := by
  refine ⟨h.name, fun name => ⟨?_, ?_⟩⟩
  · rintro ⟨id, hid⟩
    rcases lookup_of_declareAll hrun hid with hid | hdecl
    · cases hid
    · exact hdecl
  · -- every declaration was given an id
    rintro ⟨decl, hdecl, rfl⟩
    obtain ⟨id, _, hid⟩ := exists_zip_of_forall₂ h.ids hdecl
    exact ⟨id, hid⟩

/-- **What the walk over a manifest accepts**: every expression may stand where it does, and fields
without names embed what has a name. -/
theorem walk_succeeds_iff (m : Manifest) :
    (∃ d, Runs (manifest m) (start m.path m.name) ⟨⟩ d) ↔
      (∀ t ∈ m.sites, m.Admits t) ∧
        ∀ decl ∈ m.types, ∀ f ∈ decl.underlying.fields, f.Embeds := by
  obtain ⟨ids, d₀, hdeclare, h⟩ := exists_declareAll m.types (start m.path m.name)
  -- what is asked of a type does not depend on the id that it was declared with
  have hzip : ∀ P : TypeDecl → Prop,
      (∀ x ∈ ids.zip m.types, P x.2) ↔ ∀ decl ∈ m.types, P decl := by
    intro P
    constructor
    · intro hall decl hdecl
      obtain ⟨id, hid, _⟩ := exists_zip_of_forall₂ h.ids hdecl
      exact hall (id, decl) hid
    · exact fun hall x hx => hall x.2 (List.of_mem_zip hx).2
  have hrest := (decides_forM (fun x : NativeId × TypeDecl => decides_type (m := m) x.1 x.2)
    (ids.zip m.types)).bind fun _ => decides_forM decides_constant m.constants
  have hwalk : (∃ d, Runs (manifest m) (start m.path m.name) ⟨⟩ d) ↔ ∃ a d, Runs
      ((ids.zip m.types).forM (fun x => type x.1 x.2) >>= fun _ => m.constants.forM constant)
        d₀ a d := by
    constructor
    · rintro ⟨d, hrun⟩
      obtain ⟨ids', d₀', hdeclare', hrun⟩ := runs_bind.1 hrun
      obtain ⟨rfl, rfl⟩ := runs_unique hdeclare hdeclare'
      exact ⟨⟨⟩, d, hrun⟩
    · rintro ⟨_, d, hrun⟩
      exact ⟨d, runs_bind.2 ⟨ids, d₀, hdeclare, hrun⟩⟩
  rw [hwalk, hrest.succeeds (within_of_declareAll hdeclare h), hzip fun decl =>
    (∀ t ∈ decl.sites, m.Admits t) ∧ ∀ f ∈ decl.underlying.fields, f.Embeds]
  unfold Manifest.sites
  rw [List.forall_mem_append, forall_mem_flatMap, List.forall_mem_map]
  constructor
  · rintro ⟨htypes, hconstants⟩
    exact ⟨⟨fun decl hdecl => (htypes decl hdecl).1, hconstants⟩,
      fun decl hdecl => (htypes decl hdecl).2⟩
  · rintro ⟨⟨htypes, hconstants⟩, hfields⟩
    exact ⟨fun decl hdecl => ⟨htypes decl hdecl, hfields decl hdecl⟩, hconstants⟩

end Building

end RpcSchema
