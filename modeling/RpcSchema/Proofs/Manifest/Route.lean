/-
  RpcSchema.Proofs.Manifest.Route
  ───────────────────────────────
  **THE WALK OVER A MANIFEST VISITS EVERY DECLARATION ONCE.**

  First all names are declared, then each type is defined and each constant
  read, one after the other.  A visit changes the type it is about and adds
  others; what another visit is about it leaves alone.  So each declaration
  is read on a draft that holds its type as it was declared, and the walk
  can be taken apart into its visits, and put together from them.

  Main statements: `visits_of_runs`, `exists_runs_forM` (both directions),
  `exists_route` (what a walk leaves) and `exists_walk` (when there is one).
-/
import RpcSchema.Proofs.Manifest.Echo

namespace RpcSchema

/-! ## §1. Visits. -/

/-- What is about other types leaves a declaration alone. -/
theorem Draft.Grows.kind_of_named {d e : Draft} {id : NativeId} {decl : NamedType}
    (h : Draft.Grows (fun n => ¬ n = id) d e) (hk : d.types.kind id = .named decl) :
    e.types.kind id = .named decl :=
  (h.kept id (Universe.has_of_named hk) (Or.inr fun hne => hne rfl)).trans hk

namespace Building

open Draft

section Visits

variable {α : Type} {f : α → Building Unit} {T : α → NativeId → Prop} {Start : α → Draft → Prop}

/-- On the way from `E` to `E'` the element `a` is visited, from `E₁` to `E₂`; nothing else changes
the types it is about. -/
structure Visited (f : α → Building Unit) (T : α → NativeId → Prop) (E E' : Draft) (a : α)
    (E₁ E₂ : Draft) : Prop where
  before : Grows (fun n => ¬ T a n) E E₁
  visit : Runs (f a) E₁ ⟨⟩ E₂
  after : Grows (fun n => ¬ T a n) E₂ E'

/-- The visits of a list do not interfere: the elements are about different types, a visit of `a`
needs `Start a` only, and changes no types but those of `a`. -/
structure Separate (f : α → Building Unit) (T : α → NativeId → Prop) (Start : α → Draft → Prop)
    (l : List α) : Prop where
  apart : l.Pairwise fun a b => ∀ n, T a n → ¬ T b n
  start : ∀ {a E E'}, Start a E → Grows (fun n => ¬ T a n) E E' → Start a E'
  step : ∀ a ∈ l, ∀ {E E'}, Start a E → Runs (f a) E ⟨⟩ E' → Grows (T a) E E'

theorem Separate.tail {a : α} {l : List α} (h : Separate f T Start (a :: l)) :
    Separate f T Start l :=
  ⟨(List.pairwise_cons.1 h.apart).2, h.start, fun b hb => h.step b (List.mem_cons_of_mem a hb)⟩

/-- What one visit leaves is as good a start for the others. -/
theorem Separate.leaves {a : α} {l : List α} (h : Separate f T Start (a :: l)) {E E' : Draft}
    (hstart : ∀ b ∈ a :: l, Start b E) (hrun : Runs (f a) E ⟨⟩ E') {b : α} (hb : b ∈ l) :
    Grows (fun n => ¬ T b n) E E' ∧ Start b E' := by
  have hgrows : Grows (fun n => ¬ T b n) E E' :=
    (h.step a List.mem_cons_self (hstart a List.mem_cons_self) hrun).mono
      ((List.pairwise_cons.1 h.apart).1 b hb)
  exact ⟨hgrows, h.start (hstart b (List.mem_cons_of_mem a hb)) hgrows⟩

/-- **Every element is visited, and what is new was added by a visit.** -/
theorem visits_of_runs {l : List α} (h : Separate f T Start l) {E E' : Draft}
    (hstart : ∀ a ∈ l, Start a E) (hrun : Runs (l.forM f) E ⟨⟩ E') :
    Grows (fun n => ∃ a ∈ l, T a n) E E' ∧ (∀ a ∈ l, ∃ E₁ E₂, Visited f T E E' a E₁ E₂) ∧
      ∀ n, E'.types.Has n → E.types.Has n ∨
        ∃ a ∈ l, ∃ E₁ E₂, Visited f T E E' a E₁ E₂ ∧ E₂.types.Has n ∧ ¬ E₁.types.Has n := by
  induction l generalizing E with
  | nil =>
    obtain rfl := runs_forM_nil.1 hrun
    exact ⟨Grows.refl _, fun a ha => absurd ha List.not_mem_nil, fun n hn => Or.inl hn⟩
  | cons a l ih =>
    obtain ⟨E₁, hfirst, hrest⟩ := runs_forM_cons.1 hrun
    have hleaves := fun {b} (hb : b ∈ l) => h.leaves hstart hfirst hb
    obtain ⟨hgrows, hvisits, hnew⟩ := ih h.tail (fun b hb => (hleaves hb).2) hrest
    -- a later visit, seen from the start
    have hlater : ∀ {b F₁ F₂}, b ∈ l → Visited f T E₁ E' b F₁ F₂ → Visited f T E E' b F₁ F₂ :=
      fun hb hv => ⟨(hleaves hb).1.trans hv.before, hv.visit, hv.after⟩
    have hself : Visited f T E E' a E E₁ := by
      refine ⟨Grows.refl E, hfirst, hgrows.mono ?_⟩
      rintro n ⟨b, hb, hTb⟩ hTa
      exact (List.pairwise_cons.1 h.apart).1 b hb n hTa hTb
    have hstep := h.step a List.mem_cons_self (hstart a List.mem_cons_self) hfirst
    refine ⟨(hstep.mono fun n hn => ⟨a, List.mem_cons_self, hn⟩).trans (hgrows.mono ?_),
      fun b hb => ?_, fun n hn => ?_⟩
    · rintro n ⟨b, hb, hn⟩
      exact ⟨b, List.mem_cons_of_mem a hb, hn⟩
    · rcases List.mem_cons.1 hb with rfl | hb
      · exact ⟨E, E₁, hself⟩
      · obtain ⟨F₁, F₂, hv⟩ := hvisits b hb
        exact ⟨F₁, F₂, hlater hb hv⟩
    · rcases hnew n hn with hn₁ | ⟨b, hb, F₁, F₂, hv, hn₂, hn₁⟩
      · by_cases hold : E.types.Has n
        · exact Or.inl hold
        · exact Or.inr ⟨a, List.mem_cons_self, E, E₁, hself, hn₁, hold⟩
      · exact Or.inr ⟨b, List.mem_cons_of_mem a hb, F₁, F₂, hlater hb hv, hn₂, hn₁⟩

/-- **If every visit can be made, all of them can.** -/
theorem exists_runs_forM {l : List α} (h : Separate f T Start l) {E : Draft}
    (hstart : ∀ a ∈ l, Start a E)
    (hvisit : ∀ a ∈ l, ∀ F, Start a F → Grows (fun _ => True) E F → ∃ F', Runs (f a) F ⟨⟩ F') :
    ∃ E', Runs (l.forM f) E ⟨⟩ E' := by
  -- on the elements that are left, which earlier visits have not touched
  induction l generalizing E with
  | nil => exact ⟨E, runs_forM_nil.2 rfl⟩
  | cons a l ih =>
    have hfirst := hstart a List.mem_cons_self
    obtain ⟨E₁, hrun⟩ := hvisit a List.mem_cons_self E hfirst (Grows.refl E)
    have hgrows := (h.step a List.mem_cons_self hfirst hrun).mono (T := fun _ => True)
      fun _ _ => trivial
    obtain ⟨E', hrest⟩ := ih h.tail (fun b hb => (h.leaves hstart hrun hb).2)
      fun b hb F hF hEF => hvisit b (List.mem_cons_of_mem a hb) F hF (hgrows.trans hEF)
    exact ⟨E', runs_forM_cons.2 ⟨E₁, hrun, hrest⟩⟩

end Visits

/-- A run has one result. -/
theorem runs_unique {α : Type} {x : Building α} {E E' E'' : Draft} {a b : α}
    (h : Runs x E a E') (h' : Runs x E b E'') : b = a ∧ E'' = E' := by
  obtain ⟨rfl, rfl⟩ := Prod.mk.inj (Except.ok.inj (h.symm.trans h'))
  exact ⟨rfl, rfl⟩

end Building

/-! ## §2. Declaring all names. -/

namespace Draft

/-- What holds of a draft before any type is defined. -/
structure Fresh (d : Draft) : Prop where
  constants : d.constants = []
  blank : ∀ x ∈ d.declared, d.types.kind x.2 = .named ⟨x.1, some d.path, .undefined, []⟩
  only : ∀ n, d.types.Has n → (∃ i < 21, n = .entry i) ∨ n ∈ d.declared.map (·.2)

theorem start_fresh (path : String) (name? : Option String) : (start path name?).Fresh where
  constants := rfl
  blank _ hx := absurd hx List.not_mem_nil
  only _ hn := Or.inl hn

/-- A name that is declared already is only noted down; another one is given a type. -/
theorem declare_cases (d : Draft) (name : String) :
    (∃ id, d.lookup? name = some id ∧
      d.declare name = (id, { d with repeated := d.repeated ++ [name] })) ∨
    d.lookup? name = none ∧ d.declare name = (.entry d.types.size,
      { d with
        types := (d.types.push (.named ⟨name, some d.path, .undefined, []⟩)).2
        declared := d.declared ++ [(name, .entry d.types.size)] }) := by
  unfold declare
  cases hlook : d.lookup? name with
  | some id => exact Or.inl ⟨id, rfl, rfl⟩
  | none => exact Or.inr ⟨rfl, rfl⟩

/-- A draft stays fresh while names are declared. -/
theorem Fresh.declare {d : Draft} (h : d.Fresh) (name : String) : (d.declare name).2.Fresh := by
  rcases d.declare_cases name with ⟨id, _, heq⟩ | ⟨_, heq⟩
  · rw [heq]
    exact ⟨h.constants, h.blank, h.only⟩
  · rw [heq]
    refine ⟨h.constants, fun x hx => ?_, fun n hn => ?_⟩
    · -- declared before, or the one that is declared now
      rcases List.mem_append.1 hx with hx | hx
      · have hk := h.blank x hx
        exact (Universe.kind_push_of_has _ (Universe.has_of_named hk)).trans hk
      · rw [List.mem_singleton.1 hx]
        exact Universe.kind_push d.types _
    · rw [List.map_append]
      rcases Universe.has_push_iff.1 hn with hn | rfl
      · exact (h.only n hn).imp_right (List.mem_append_left _)
      · exact Or.inr (List.mem_append_right _ List.mem_cons_self)

/-- A name that was declared is looked up as before. -/
theorem lookup_declare_of_some {d : Draft} {name name' : String} {id : NativeId}
    (h : d.lookup? name' = some id) : (d.declare name).2.lookup? name' = some id := by
  rcases d.declare_cases name with ⟨_, _, heq⟩ | ⟨_, heq⟩
  · rw [heq]
    exact h
  · rw [heq]
    show List.lookup name' (d.declared ++ _) = _
    rw [List.lookup_append, show d.declared.lookup name' = some id from h]
    rfl

end Draft

namespace Building

open Draft

/-- Declares all types of a list. -/
def declareAll (decls : List TypeDecl) : Building (List NativeId) :=
  decls.mapM fun decl => modifyGet (·.declare decl.name)

/-- From `d`, the types `decls` are declared with the ids `ids`, which leaves `d'`. -/
structure Declares (decls : List TypeDecl) (d : Draft) (ids : List NativeId) (d' : Draft) :
    Prop where
  fresh : d.Fresh → d'.Fresh
  path : d'.path = d.path
  name : d'.name = d.name
  keeps : ∀ name id, d.lookup? name = some id → d'.lookup? name = some id
  ids : List.Forall₂ (fun id decl => d'.lookup? decl.name = some id) ids decls
  names : d'.repeated = [] → d.repeated = [] ∧
    d'.declared.map (·.1) = d.declared.map (·.1) ++ decls.map (·.name)
  distinct : (d.declared.map (·.1) ++ decls.map (·.name)).Nodup → d'.repeated = d.repeated

/-- **Declaring does not fail**, and tells which names are repeated. -/
theorem exists_declareAll (decls : List TypeDecl) (d : Draft) :
    ∃ ids d', Runs (declareAll decls) d ids d' ∧ Declares decls d ids d' := by
  -- on the declarations, the first of which is declared before the others
  induction decls generalizing d with
  | nil =>
    exact ⟨[], d, runs_mapM_nil.2 ⟨rfl, rfl⟩, id, rfl, rfl, fun _ _ h => h, .nil,
      fun h => ⟨h, (List.append_nil _).symm⟩, fun _ => rfl⟩
  | cons decl decls ih =>
    obtain ⟨ids, d', hrun, h⟩ := ih (d.declare decl.name).2
    refine ⟨(d.declare decl.name).1 :: ids, d', runs_mapM_cons.2 ⟨_, _, ids, rfl, hrun, rfl⟩, ?_⟩
    refine ⟨fun hd => h.fresh (hd.declare _), ?_, ?_, fun name id hid => ?_,
      .cons (h.keeps _ _ (lookup_declare_self d decl.name)) h.ids, fun hnone => ?_, fun hnodup => ?_⟩
    · rw [h.path]
      rcases d.declare_cases decl.name with ⟨_, _, heq⟩ | ⟨_, heq⟩ <;> rw [heq]
    · rw [h.name]
      rcases d.declare_cases decl.name with ⟨_, _, heq⟩ | ⟨_, heq⟩ <;> rw [heq]
    · exact h.keeps _ _ (lookup_declare_of_some hid)
    · -- a name that is found is noted as repeated
      obtain ⟨hrepeated, hnames⟩ := h.names hnone
      rcases d.declare_cases decl.name with ⟨_, _, heq⟩ | ⟨_, heq⟩
      · rw [heq] at hrepeated
        exact absurd hrepeated (List.append_ne_nil_of_right_ne_nil _ (List.cons_ne_nil _ _))
      · rw [heq] at hrepeated hnames
        refine ⟨hrepeated, hnames.trans ?_⟩
        rw [List.map_append, List.append_assoc]
        rfl
    · rcases d.declare_cases decl.name with ⟨id, hid, heq⟩ | ⟨_, heq⟩
      · have hmem : decl.name ∈ d.declared.map (·.1) := List.mem_map.2 ⟨_, Sequence.mem_of_lookup hid, rfl⟩
        exact absurd rfl ((List.nodup_append.1 hnodup).2.2 _ hmem _ List.mem_cons_self)
      · rw [h.distinct ?_, heq]
        rw [heq, List.map_append, List.append_assoc]
        exact hnodup

/-! ## §3. Routes. -/

/-- How a type is visited. -/
def TypeVisited (E E' : Draft) (id : NativeId) (decl : TypeDecl) : Draft → Draft → Prop :=
  Visited (fun x : NativeId × TypeDecl => type x.1 x.2) (fun x n => n = x.1) E E' (id, decl)

/-- How a constant is read: its type is `n`. -/
structure ConstantRead (E E' : Draft) (decl : ConstDecl) (n : NativeId) (E₁ E₂ : Draft) : Prop where
  before : Grows (fun _ => True) E E₁
  read : Runs (resolveText decl.type) E₁ n E₂
  after : Grows (fun _ => True) E₂ E'

/-- The constant that a declaration makes, of a type. -/
def constantOf (decl : ConstDecl) (type : NativeId) : Constant :=
  ⟨decl.name, type, decl.literal⟩

/-- The walk over `m` leads through `d₀`, where all names are declared, to `d`. -/
structure Route (m : Manifest) (d₀ d : Draft) : Prop where
  fresh : d₀.Fresh
  path : d₀.path = m.path
  name : d₀.name = m.name.getD (lastSegment m.path)
  names : d₀.declared.map (·.1) = m.types.map (·.name)
  tidy : d.Tidy
  far : d.Opaque
  grows : Grows (fun _ => True) d₀ d
  types : ∀ decl ∈ m.types, ∃ id E₁ E₂, d₀.lookup? decl.name = some id ∧
    TypeVisited d₀ d id decl E₁ E₂
  constants : ∃ ids, d.constants = List.zipWith constantOf m.constants ids ∧
    List.Forall₂ (fun decl n => ∃ E₁ E₂, ConstantRead d₀ d decl n E₁ E₂) m.constants ids
  /-- What is there was there from the start or was added by a visit. -/
  new : ∀ n, d.types.Has n → d₀.types.Has n ∨
    (∃ decl ∈ m.types, ∃ id E₁ E₂, d₀.lookup? decl.name = some id ∧
      TypeVisited d₀ d id decl E₁ E₂ ∧ E₂.types.Has n ∧ ¬ E₁.types.Has n) ∨
    ∃ decl ∈ m.constants, ∃ t E₁ E₂, ConstantRead d₀ d decl t E₁ E₂ ∧ E₂.types.Has n ∧
      ¬ E₁.types.Has n

/-- How a declared type looks before it is defined. -/
def Undefined (path : String) (x : NativeId × TypeDecl) (E : Draft) : Prop :=
  E.types.kind x.1 = .named ⟨x.2.name, some path, .undefined, []⟩

/-- Of lists that agree, each on the right is paired with one on the left. -/
theorem exists_zip_of_forall₂ {α β : Type} {R : α → β → Prop} {l : List α} {l' : List β}
    (h : List.Forall₂ R l l') {b : β} (hb : b ∈ l') : ∃ a, (a, b) ∈ l.zip l' ∧ R a b := by
  induction h with
  | nil => exact absurd hb List.not_mem_nil
  | cons hR _ ih =>
    rcases List.mem_cons.1 hb with rfl | hb
    · exact ⟨_, List.mem_cons_self, hR⟩
    · obtain ⟨a, ha, hR⟩ := ih hb
      exact ⟨a, List.mem_cons_of_mem _ ha, hR⟩

section Routes

variable {m : Manifest} {d₀ d : Draft}

/-- Between the start and the end of a route. -/
theorem Route.completes {S : NativeId → Prop} {E : Draft} (hd : Route m d₀ d)
    (h : Grows S E d) : Completes E d :=
  ⟨hd.tidy, hd.far, h.mono fun _ _ => trivial⟩

/-- What is declared is so from the start. -/
theorem Route.lookup_eq (hd : Route m d₀ d) (name : String) : d.lookup? name = d₀.lookup? name := by
  unfold lookup?
  rw [hd.grows.declared]

/-- Names that are looked up are declared by the manifest. -/
theorem Route.exists_decl (hd : Route m d₀ d) {name : String} {n : NativeId}
    (hn : d.lookup? name = some n) : ∃ decl ∈ m.types, decl.name = name := by
  refine List.mem_map.1 ?_
  rw [← hd.names, ← hd.grows.declared]
  exact List.mem_map.2 ⟨_, Sequence.mem_of_lookup hn, rfl⟩

/-- A type is visited as it was declared. -/
theorem Route.undefined (hd : Route m d₀ d) {decl : TypeDecl} {id : NativeId} {E₁ E₂ : Draft}
    (hid : d₀.lookup? decl.name = some id) (hv : TypeVisited d₀ d id decl E₁ E₂) :
    Undefined m.path (id, decl) E₁ := by
  have hk := hd.fresh.blank _ (Sequence.mem_of_lookup hid)
  rw [hd.path] at hk
  exact hv.before.kind_of_named hk

/-- Each constant of the manifest was read at some time. -/
theorem Route.exists_constant (hd : Route m d₀ d) {decl : ConstDecl} (hdecl : decl ∈ m.constants) :
    ∃ n E₁ E₂, ConstantRead d₀ d decl n E₁ E₂ := by
  obtain ⟨_, _, hreads⟩ := hd.constants
  obtain ⟨n, _, E₁, E₂, hread⟩ := exists_zip_of_forall₂ hreads.flip hdecl
  exact ⟨n, E₁, E₂, hread⟩

end Routes

/-! ## §4. The walk over a manifest. -/

section Walk

variable {m : Manifest} {d₀ d : Draft}

/-- To read a constant is to resolve its type and to add it. -/
theorem runs_constant {decl : ConstDecl} {E E' : Draft} :
    Runs (constant decl) E ⟨⟩ E' ↔ ∃ n E₁, Runs (resolveText decl.type) E n E₁ ∧
      E' = E₁.addConstant decl.name n decl.literal := by
  unfold constant
  rw [runs_bind]
  simp only [runs_modify]

theorem akin_refl (E : Draft) : Akin E E :=
  ⟨rfl, fun _ => rfl⟩

theorem adds_resolveText {source : String} {E E' : Draft} {n : NativeId}
    (h : Runs (resolveText source) E n E') : Adds E E' := by
  obtain ⟨_, _, _, hE, _⟩ := echo_resolveText (P := fun _ _ => True) source (akin_refl E) h
  exact hE

/-- Constants do not interfere, since they change no types. -/
theorem separate_constants (l : List ConstDecl) :
    Separate constant (fun _ _ => False) (fun _ _ => True) l where
  apart := List.pairwise_of_forall fun _ _ _ h => h.elim
  start _ _ := trivial
  step decl _ {E E'} _ hrun := by
    obtain ⟨n, E₁, hread, rfl⟩ := runs_constant.1 hrun
    exact (adds_resolveText hread).trans (adds_addConstant E₁ _ _ _)

/-- Types do not interfere: each changes its own declaration. -/
theorem separate_types {path : String} {l : List (NativeId × TypeDecl)}
    (h : l.Pairwise fun x y => x.1 ≠ y.1) :
    Separate (fun x : NativeId × TypeDecl => type x.1 x.2) (fun x n => n = x.1) (Undefined path)
      l where
  apart := h.imp fun hne _ hn hm => hne (hn.symm.trans hm)
  start hk hgrows := hgrows.kind_of_named hk
  step x _ {E E'} hk hrun := by
    have hnamed : E.types.kind x.1 = .named ⟨x.2.name, some path, .undefined, []⟩ := hk
    obtain ⟨_, _, _, _, hE, _⟩ := redefines_type x.2 (akin_refl E) hnamed hnamed hrun
    exact hE

/-- The constants that were read and the names that are repeated are as in `E`. -/
def SameLists (E d : Draft) : Prop :=
  d.constants = E.constants ∧ d.repeated = E.repeated

/-- Reading expressions leaves the lists of a draft alone. -/
theorem outlasts_lists (E : Draft) : Outlasts (SameLists E) where
  shape _ h _ _ _ := h
  foreign {d} package name _ h := by
    unfold Draft.foreign
    split <;> exact h

theorem keeps_lists (E : Draft) (id : NativeId) (decl : TypeDecl) :
    Keeps (SameLists E) (type id decl) :=
  keeps_type
    { outlasts_lists E with define := fun _ h _ => h, addMethod := fun _ _ h => h } decl

/-- The constants of a manifest are read one after the other. -/
theorem constants_of_runs {l : List ConstDecl} {E E' : Draft} (hE : E.Formed)
    (hbefore : Grows (fun _ => True) d₀ E) (hafter : Grows (fun _ => True) E' d)
    (hrun : Runs (l.forM constant) E ⟨⟩ E') :
    ∃ ids, E'.constants = E.constants ++ List.zipWith constantOf l ids ∧
      List.Forall₂ (fun decl n => ∃ E₁ E₂, ConstantRead d₀ d decl n E₁ E₂) l ids := by
  -- on the constants that are left
  induction l generalizing E with
  | nil =>
    obtain rfl := runs_forM_nil.1 hrun
    exact ⟨[], (List.append_nil _).symm, .nil⟩
  | cons decl l ih =>
    obtain ⟨E₂, hfirst, hrest⟩ := runs_forM_cons.1 hrun
    have hE₂ := (forms_constant decl E _ E₂ hE trivial hfirst).1
    obtain ⟨n, E₁, hread, rfl⟩ := runs_constant.1 hfirst
    -- resolving the type of a constant adds no constant
    have hkept : E₁.constants = E.constants :=
      (keeps_resolveText (outlasts_lists E) decl.type E n E₁ hE ⟨rfl, rfl⟩ hread).2.2.1
    have hadd := adds_addConstant E₁ decl.name n decl.literal
    have hgrows := hbefore.trans ((adds_resolveText hread).grows.trans hadd.grows)
    obtain ⟨ids, hids, hreads⟩ := ih hE₂ hgrows hrest
    have hlater : Grows (fun _ => True) (E₁.addConstant decl.name n decl.literal) E' :=
      (visits_of_runs (separate_constants l) (fun _ _ => trivial) hrest).1.mono fun _ _ => trivial
    refine ⟨n :: ids, ?_, .cons ⟨E, E₁, hbefore, hread, hadd.grows.trans (hlater.trans hafter)⟩
      hreads⟩
    rw [hids]
    show (E₁.constants ++ [constantOf decl n]) ++ _ = _
    rw [hkept, List.append_assoc]
    rfl

/-- Types of different names have different ids. -/
theorem Declares.apart {decls : List TypeDecl} {E : Draft} {ids : List NativeId}
    (h : Declares decls E ids d₀) (htidy : d₀.Tidy) (hnodup : (decls.map (·.name)).Nodup) :
    (ids.zip decls).Pairwise fun x y => x.1 ≠ y.1 := by
  have hzip : (ids.zip decls).map (·.2) = decls :=
    List.map_snd_zip (Nat.le_of_eq h.ids.length_eq.symm)
  rw [← hzip, List.map_map] at hnodup
  refine (List.pairwise_map.1 hnodup).imp_of_mem fun {x y} hx hy hne heq => hne ?_
  have hfound := fun {x} (hx : x ∈ ids.zip decls) => (List.forall₂_iff_zip.1 h.ids).2 hx
  -- two names with one id would be one name
  have htitle : Title.declared x.2.name = .declared y.2.name :=
    htidy.title_unique (hfound hx) (by rw [heq]; exact hfound hy)
  exact Title.declared.inj htitle

theorem Declares.undefined {decls : List TypeDecl} {E : Draft} {ids : List NativeId}
    (h : Declares decls E ids d₀) (hfresh : d₀.Fresh) {x : NativeId × TypeDecl}
    (hx : x ∈ ids.zip decls) : Undefined d₀.path x d₀ :=
  hfresh.blank (x.2.name, x.1) (Sequence.mem_of_lookup ((List.forall₂_iff_zip.1 h.ids).2 hx))

/-- **What a walk leaves**, if no name is declared twice. -/
theorem exists_route (hrun : Runs (manifest m) (start m.path m.name) ⟨⟩ d)
    (hrepeated : d.repeated = []) : ∃ d₀, Route m d₀ d := by
  obtain ⟨_, htidy, hfar⟩ := tidy_manifest hrun
  unfold manifest at hrun
  obtain ⟨ids, d₀, hdeclare, hrun⟩ := runs_bind.1 hrun
  obtain ⟨_, d₁, htypes, hconstants⟩ := runs_bind.1 hrun
  obtain ⟨hformed₀, htidy₀, _, _, _⟩ := declared_of_runs hdeclare
    (start_formed m.path m.name) (start_tidy _ _) (Draft.start_opaque _ _)
  obtain ⟨ids', d₀', hdeclare', h⟩ := exists_declareAll m.types (start m.path m.name)
  obtain ⟨rfl, rfl⟩ := runs_unique hdeclare' hdeclare
  have hfresh := h.fresh (start_fresh _ _)
  have hlists : Keeps (SameLists d₀) ((ids.zip m.types).forM fun x => type x.1 x.2) :=
    keeps_forM fun x _ => keeps_lists d₀ x.1 x.2
  obtain ⟨hformed₁, _, hnone, hsame⟩ := hlists d₀ _ d₁ hformed₀ ⟨rfl, rfl⟩ htypes
  -- the constants leave the types alone
  obtain ⟨hgrows₂, hreads, hnew₂⟩ :=
    visits_of_runs (separate_constants m.constants) (fun _ _ => trivial) hconstants
  have hadds : Adds d₁ d := hgrows₂.mono fun _ ⟨_, _, hn⟩ => hn
  -- so the names were not repeated in the first place
  have hnames : d₀.declared.map (·.1) = m.types.map (·.name) := by
    refine (h.names ?_).2
    rw [← hsame, ← hadds.repeated]
    exact hrepeated
  have hapart := h.apart htidy₀ (hnames ▸ htidy₀.names)
  have hpath : d₀.path = m.path := h.path
  obtain ⟨hgrows₁, hvisits, hnew₁⟩ := visits_of_runs (separate_types hapart)
    (fun x hx => h.undefined hfresh hx) htypes
  have hall : Grows (fun _ => True) d₀ d₁ := hgrows₁.mono fun _ _ => trivial
  obtain ⟨cs, hcs, hreads⟩ := constants_of_runs (d := d) hformed₁ hall (Grows.refl d) hconstants
  rw [hnone, hfresh.constants, List.nil_append] at hcs
  -- a visit of a type, seen from the end
  have hvisited : ∀ {x E₁ E₂}, Visited (fun x : NativeId × TypeDecl => type x.1 x.2)
      (fun x n => n = x.1) d₀ d₁ x E₁ E₂ → TypeVisited d₀ d x.1 x.2 E₁ E₂ :=
    fun hv => ⟨hv.before, hv.visit, hv.after.trans hadds.grows⟩
  refine ⟨d₀, hfresh, hpath, h.name, hnames, htidy, hfar, hall.trans hadds.grows,
    fun decl hdecl => ?_, ⟨cs, hcs, hreads⟩, fun n hn => ?_⟩
  · obtain ⟨id, hzip, hid⟩ := exists_zip_of_forall₂ h.ids hdecl
    obtain ⟨E₁, E₂, hv⟩ := hvisits _ hzip
    exact ⟨id, E₁, E₂, hid, hvisited hv⟩
  · rcases hnew₂ n hn with hn | ⟨decl, hdecl, E₁, E₂, hv, hn₂, hn₁⟩
    · refine (hnew₁ n hn).imp_right fun hnew => Or.inl ?_
      obtain ⟨x, hx, E₁, E₂, hv, hnew⟩ := hnew
      exact ⟨x.2, (List.of_mem_zip hx).2, x.1, E₁, E₂, (List.forall₂_iff_zip.1 h.ids).2 hx,
        hvisited hv, hnew⟩
    · obtain ⟨t, E', hread, rfl⟩ := runs_constant.1 hv.visit
      refine Or.inr (Or.inr ⟨decl, hdecl, t, E₁, E', ⟨?_, hread, ?_⟩, hn₂, hn₁⟩)
      · exact hall.trans (hv.before.mono fun _ _ => trivial)
      · exact (adds_addConstant E' _ _ _).grows.trans (hv.after.mono fun _ _ => trivial)

/-- **When there is a walk**: the names are different, and each declaration can be read on any
draft that the names are declared in. -/
theorem exists_walk (hnames : (m.types.map (·.name)).Nodup)
    (htypes : ∀ d₀ : Draft, d₀.name = m.name.getD (lastSegment m.path) →
      d₀.declared.map (·.1) = m.types.map (·.name) → ∀ decl ∈ m.types, ∀ id F,
      Undefined m.path (id, decl) F → Grows (fun _ => True) d₀ F → ∃ F', Runs (type id decl) F ⟨⟩ F')
    (hconstants : ∀ d₀ : Draft, d₀.name = m.name.getD (lastSegment m.path) →
      d₀.declared.map (·.1) = m.types.map (·.name) → ∀ decl ∈ m.constants, ∀ F,
      Grows (fun _ => True) d₀ F → ∃ F', Runs (constant decl) F ⟨⟩ F') :
    ∃ d, Runs (manifest m) (start m.path m.name) ⟨⟩ d ∧ d.repeated = [] := by
  obtain ⟨ids, d₀, hdeclare, h⟩ := exists_declareAll m.types (start m.path m.name)
  obtain ⟨_, htidy₀, _, _, _⟩ := declared_of_runs hdeclare
    (start_formed m.path m.name) (start_tidy _ _) (Draft.start_opaque _ _)
  have hfresh := h.fresh (start_fresh _ _)
  have hnone : d₀.repeated = [] := h.distinct hnames
  have hdeclared := (h.names hnone).2
  have hpath : d₀.path = m.path := h.path
  -- the types were declared one by one, so no visit touches the type of another one
  have hseparate : Separate (fun x : NativeId × TypeDecl => type x.1 x.2) (fun x n => n = x.1)
      (Undefined m.path) (ids.zip m.types) := separate_types (h.apart htidy₀ hnames)
  have hstart : ∀ x ∈ ids.zip m.types, Undefined m.path x d₀ :=
    fun x hx => hpath ▸ h.undefined hfresh hx
  -- first all types are defined, then all constants are read
  obtain ⟨d₁, hrun₁⟩ := exists_runs_forM hseparate hstart fun x hx F hF hgrows =>
    htypes d₀ h.name hdeclared x.2 (List.of_mem_zip hx).2 x.1 F hF hgrows
  have hgrows₁ := (visits_of_runs hseparate hstart hrun₁).1.mono (T := fun _ => True)
    fun _ _ => trivial
  obtain ⟨d, hrun₂⟩ := exists_runs_forM (separate_constants m.constants) (fun _ _ => trivial)
    fun decl hdecl F _ hgrows => hconstants d₀ h.name hdeclared decl hdecl F (hgrows₁.trans hgrows)
  have hgrows₂ := (visits_of_runs (separate_constants m.constants) (fun _ _ => trivial) hrun₂).1
  refine ⟨d, runs_bind.2 ⟨ids, d₀, hdeclare, runs_bind.2 ⟨⟨⟩, d₁, hrun₁, hrun₂⟩⟩, ?_⟩
  rw [hgrows₂.repeated, hgrows₁.repeated, hnone]

end Walk

end Building

end RpcSchema
