/-
  RpcSchema.Proofs.Manifest.Reordering
  ────────────────────────────────────
  **THE ORDER OF DECLARATIONS DOES NOT MATTER.**

  A manifest may list its types in any order, and its constants in any
  order that keeps those of each type in theirs.  The walks over two such
  manifests make the same visits, so every type of the one package has a
  twin in the other, and twins are declared alike.  The two packages then
  differ in the ids of their types, which no schema shows.

  An error shows them in one place: the text of a map key that is pending
  holds the id of its native type.

  The names and texts of containers that do not unfold finitely have no
  end; `Pool.label` and `Pool.display` cut them off.  The schemas of two
  such manifests unfold finitely together or not at all
  (`Schema.unfolds_renamed`), and it is of those that do that the result
  says what is written.

  Main statements: `declaration_order` and
  `declaration_order_shows_in_pending_keys`.
-/
import RpcSchema.Proofs.Manifest.Constants
import RpcSchema.Proofs.Manifest.Renumbering
import RpcSchema.Proofs.Proto.Sections

namespace RpcSchema

/-! ## §1. Reordered manifests. -/

namespace Manifest

/-- The same declarations in another order; the constants of each type are in the same. -/
structure Reordered (m m' : Manifest) : Prop where
  path : m'.path = m.path
  name : m'.name = m.name
  types : m'.types.Perm m.types
  constants : m'.constants.Perm m.constants
  order : ∀ decl ∈ m.types, m'.constantsOf decl.name = m.constantsOf decl.name

variable {m m' : Manifest}

theorem Reordered.symm (h : m.Reordered m') : m'.Reordered m :=
  ⟨h.path.symm, h.name.symm, h.types.symm, h.constants.symm,
    fun decl hdecl => (h.order decl (h.types.mem_iff.1 hdecl)).symm⟩

theorem Reordered.shortName (h : m.Reordered m') : m'.shortName = m.shortName := by
  unfold Manifest.shortName
  rw [h.name, h.path]

end Manifest

namespace Building

open Draft

variable {m m' : Manifest} {d₀ d e₀ e : Draft}

/-! ## §2. The same visits. -/

/-- Drafts that declare the names of the two manifests. -/
theorem akin_of_names (h : m.Reordered m') (hname : d₀.name = m.shortName)
    (hname' : e₀.name = m'.shortName) (hnames : d₀.declared.map (·.1) = m.types.map (·.name))
    (hnames' : e₀.declared.map (·.1) = m'.types.map (·.name)) : Akin d₀ e₀ := by
  refine ⟨by rw [hname, hname', h.shortName], fun name => ?_⟩
  -- a name has an id exactly if it was declared
  have hsome : ∀ d : Draft, (d.lookup? name).isSome = true ↔ name ∈ d.declared.map (·.1) := by
    intro d
    rw [← not_iff_not, ← Sequence.lookup_eq_none_iff]
    unfold lookup?
    cases d.declared.lookup name <;> simp
  rw [Bool.eq_iff_iff, hsome, hsome, hnames, hnames']
  exact (h.types.map _).mem_iff

/-- **A manifest in another order is walked over without a fault as well.** -/
theorem Route.exists_walk (hd : Route m d₀ d) (h : m.Reordered m') :
    ∃ e, Runs (manifest m') (start m'.path m'.name) ⟨⟩ e ∧ e.repeated = [] := by
  -- the names differ in one order if they do in the other
  have hnodup : (m.types.map (·.name)).Nodup := by
    rw [← hd.names, ← hd.grows.declared]
    exact hd.tidy.names
  refine Building.exists_walk ((h.types.map _).nodup_iff.2 hnodup)
    (fun e₀ hname hnames decl hdecl id F hF hgrows => ?_)
    (fun e₀ hname hnames decl hdecl F hgrows => ?_)
  · obtain ⟨id₀, E₁, E₂, hid, hv⟩ := hd.types decl (h.types.mem_iff.1 hdecl)
    have hakin : Akin E₁ F := (akin_of_names h hd.name hname hd.names hnames).grow hv.before hgrows
    have hk := hd.undefined hid hv
    rw [← h.path] at hk
    -- what was visited on the one walk can be visited on the other, on a draft that is akin
    obtain ⟨F', _, _, hrun, _⟩ := redefines_type decl hakin hk hF hv.visit
    exact ⟨F', hrun⟩
  · obtain ⟨n, E₁, E₂, hv⟩ := hd.exists_constant (h.constants.mem_iff.1 hdecl)
    have hakin : Akin E₁ F := (akin_of_names h hd.name hname hd.names hnames).grow hv.before hgrows
    obtain ⟨n', F', hread, _⟩ :=
      echo_resolveText (P := fun _ _ => True) decl.type hakin hv.read
    exact ⟨_, runs_constant.2 ⟨n', F', hread, rfl⟩⟩

section Routes

variable (h : m.Reordered m') (hd : Route m d₀ d) (he : Route m' e₀ e)
include h hd he

theorem Route.akin : Akin d₀ e₀ :=
  akin_of_names h hd.name he.name hd.names he.names

/-- The same names are declared. -/
theorem Route.exists_lookup {name : String} {n : NativeId} (hn : d.lookup? name = some n) :
    ∃ n', e.lookup? name = some n' := by
  have hsome := ((hd.akin h he).grow hd.grows he.grows).names name
  rw [hn] at hsome
  exact Option.isSome_iff_exists.1 hsome

/-- **A type that is visited in both is declared alike.** -/
theorem Route.matches_type {decl : TypeDecl} {id id' : NativeId} {E₁ E₂ F₁ F₂ : Draft}
    (hid : d₀.lookup? decl.name = some id) (hv : TypeVisited d₀ d id decl E₁ E₂)
    (hid' : e₀.lookup? decl.name = some id') (hv' : TypeVisited e₀ e id' decl F₁ F₂) :
    Matches (Twin d e) (d.types.kind id) (e.types.kind id') ∧
      ∀ n, E₂.types.Has n → E₁.types.Has n ∨ ∃ m, Twin d e n m := by
  have hk := hd.undefined hid hv
  have hk' := he.undefined hid' hv'
  rw [h.path] at hk'
  -- both visits are on drafts that declare the same names
  have hakin : Akin E₁ F₁ := (hd.akin h he).grow hv.before hv'.before
  obtain ⟨F', l, l', hrun, _, _, hl, hl', hmatch⟩ := redefines_type decl hakin hk hk' hv.visit
  obtain ⟨_, rfl⟩ := runs_unique hv'.visit hrun
  obtain ⟨hkinds, hnew⟩ := hmatch d e (hd.completes hv.after) (he.completes hv'.after) ⟨rfl, rfl⟩
  refine ⟨?_, hnew⟩
  rw [hv.after.kind_of_named hl, hv'.after.kind_of_named hl']
  exact matches_named hkinds

/-- **A constant that is read in both has one type.** -/
theorem Route.twin_constant {decl : ConstDecl} {n n' : NativeId} {E₁ E₂ F₁ F₂ : Draft}
    (hv : ConstantRead d₀ d decl n E₁ E₂) (hv' : ConstantRead e₀ e decl n' F₁ F₂) :
    Twin d e n n' ∧ ∀ n, E₂.types.Has n → E₁.types.Has n ∨ ∃ m, Twin d e n m := by
  have hakin : Akin E₁ F₁ := (hd.akin h he).grow hv.before hv'.before
  obtain ⟨_, F', hrun, _, _, htwin⟩ :=
    echo_resolveText (P := fun _ _ => True) decl.type hakin hv.read
  obtain ⟨rfl, rfl⟩ := runs_unique hrun hv'.read
  exact htwin d e (hd.completes hv.after) (he.completes hv'.after) trivial

/-- **Every type has a twin.** -/
theorem Route.exists_twin {n : NativeId} (hn : d.types.Has n) : ∃ n', Twin d e n n' := by
  -- a type is builtin or declared, or it was made by visiting a type or reading a constant
  rcases hd.new n hn with hn | ⟨decl, hdecl, id, E₁, E₂, hid, hv, hn₂, hn₁⟩ |
    ⟨decl, hdecl, t, E₁, E₂, hv, hn₂, hn₁⟩
  · rcases hd.fresh.only n hn with ⟨i, hi, rfl⟩ | hmem
    · exact ⟨_, twin_builtin hd.tidy he.tidy hi⟩
    · obtain ⟨⟨name, n⟩, hx, rfl⟩ := List.mem_map.1 hmem
      have hfound : d.lookup? name = some n := by
        refine Sequence.lookup_of_mem ?_ hd.tidy.names
        rw [hd.grows.declared]
        exact hx
      obtain ⟨n', hn'⟩ := hd.exists_lookup h he hfound
      exact ⟨n', .named (.declared name) hfound hn'⟩
  · obtain ⟨id', F₁, F₂, hid', hv'⟩ := he.types decl (h.types.mem_iff.2 hdecl)
    exact ((hd.matches_type h he hid hv hid' hv').2 n hn₂).resolve_left hn₁
  · obtain ⟨t', F₁, F₂, hv'⟩ := he.exists_constant (h.constants.mem_iff.2 hdecl)
    exact ((hd.twin_constant h he hv hv').2 n hn₂).resolve_left hn₁

/-- **Twins match.** -/
theorem Route.matches {n n' : NativeId} (htwin : Twin d e n n') :
    Matches (Twin d e) (d.types.kind n) (e.types.kind n') := by
  cases htwin with
  | shape hn hm hname hskeleton hparts =>
    exact (Twin.shape hn hm hname hskeleton hparts).matches hd.tidy hname
  | named t hn hm =>
    -- by its title: the builtin error, a type of the manifest or an empty struct
    cases t with
    | error =>
      obtain rfl := Option.some.inj hn
      obtain rfl := Option.some.inj hm
      rw [show NativeId.error = .entry 18 from rfl, hd.tidy.builtin 18 (by decide),
        he.tidy.builtin 18 (by decide)]
      exact ⟨rfl, .cons (twin_builtin hd.tidy he.tidy (by decide)) .nil⟩
    | declared name =>
      obtain ⟨decl, hdecl, rfl⟩ := hd.exists_decl hn
      obtain ⟨id, E₁, E₂, hid, hv⟩ := hd.types decl hdecl
      obtain ⟨id', F₁, F₂, hid', hv'⟩ := he.types decl (h.types.mem_iff.2 hdecl)
      obtain rfl := Option.some.inj (hid.symm.trans ((hd.lookup_eq _).symm.trans hn))
      obtain rfl := Option.some.inj (hid'.symm.trans ((he.lookup_eq _).symm.trans hm))
      exact (hd.matches_type h he hid hv hid' hv').1
    | foreign package name =>
      obtain ⟨s, hk, hs⟩ := hd.far _ (Sequence.mem_of_lookup hn)
      obtain ⟨s', hk', hs'⟩ := he.far _ (Sequence.mem_of_lookup hm)
      have hshape : Twin d e s s' := by
        refine twin_of_matches (Universe.has_of_kind_ne (by simp [hs]))
          (Universe.has_of_kind_ne (by simp [hs'])) (by rw [hs]; rfl) ?_
        rw [hs, hs']
        exact ⟨rfl, .nil⟩
      rw [hk, hk']
      exact matches_named (matches_declaration _ _ hshape ⟨rfl, .nil⟩)

/-- **The one draft is the other one renumbered.** -/
theorem Route.exists_renumbers (hnone : d.repeated = []) (hnone' : e.repeated = []) :
    ∃ f, TakesTwins d e f ∧ Renumbers f d e := by
  obtain ⟨f, hf, hiso⟩ := exists_renumbering hd.tidy he.tidy (fun n hn => hd.exists_twin h he hn)
    (fun n hn => he.exists_twin h.symm hd hn) fun n n' htwin => hd.matches h he htwin
  have hpath : e.path = d.path := by
    rw [he.grows.path, he.path, h.path, ← hd.path, ← hd.grows.path]
  refine ⟨f, hf, hiso, hpath, ⟨hnone, hnone'⟩, fun name => ?_⟩
  cases hn : d.lookup? name with
  | none =>
    by_contra hm
    obtain ⟨m, hm⟩ := Option.ne_none_iff_exists'.1 hm
    obtain ⟨n, hn'⟩ := he.exists_lookup h.symm hd hm
    rw [hn] at hn'
    cases hn'
  | some n =>
    obtain ⟨n', hn'⟩ := hd.exists_lookup h he hn
    -- a name is looked up as twins
    have htwin : Twin d e n n' := .named (.declared name) hn hn'
    rw [hn', htwin.unique hd.tidy he.tidy (hf.1 n (htwin.has_left hd.tidy))]
    rfl

end Routes

/-- **The constants of a type are the same.** -/
theorem constantsOf_of_finish (h : m.Reordered m') (hd : Route m d₀ d) (he : Route m' e₀ e)
    {f : NativeId → NativeId} (hf : Renumbers f d e) {p q : Package} (hp : d.finish = .ok p)
    (hq : e.finish = .ok q) {name : String} {n : NativeId} (hn : d.lookup? name = some n) :
    q.constantsOf (f n) = p.constantsOf n := by
  obtain ⟨_, _, hpkg⟩ := frozen_of_finish hd.tidy hp
  obtain ⟨_, _, hqkg⟩ := frozen_of_finish he.tidy hq
  have hn' : e.lookup? name = some (f n) := by rw [hf.lookup, hn]; rfl
  obtain ⟨decl, hdecl, rfl⟩ := hd.exists_decl hn
  unfold Package.constantsOf
  rw [show p.constants = d.constants by rw [hpkg], show q.constants = e.constants by rw [hqkg],
    he.constants_of_declared hn', hd.constants_of_declared hn, h.order decl hdecl]

end Building

/-! ## §3. Packages. -/

/-- The containers of a pool unfold in the same way under other ids of native types. -/
theorem Pool.bounded_renamed {f : NativeId → NativeId} (hf : Function.Injective f) (p : Pool)
    (a : EntryId) : (p.renamed f).Bounded a ↔ p.Bounded a := by
  have hcontents : (p.renamed f).contents = p.contents := by
    funext b
    unfold contents Graph.between stops
    rw [Pool.entry_renamed, Pool.isDefinition_renamed, Pool.successors_renamed hf]
  unfold Bounded
  rw [hcontents]

/-- Containers unfold under one naming of the natives if they do under another. -/
theorem Schema.unfolds_renamed {f : NativeId → NativeId} (hf : Function.Injective f)
    (s : Schema) : (s.renamed f).Unfolds ↔ s.Unfolds := by
  show (∀ a ∈ (s.pool.renamed f).visitOrder s.roots, (s.pool.renamed f).Bounded a) ↔ _
  rw [Pool.visitOrder_renamed hf]
  exact forall₂_congr fun a _ => s.pool.bounded_renamed hf a

namespace Manifest

variable {m m' : Manifest}

/-- A manifest that describes a package is walked over on a route. -/
theorem exists_route {p : Package} (hp : m.build = .ok p) :
    ∃ d₀ d, Building.Route m d₀ d ∧ d.repeated = [] ∧ d.finish = .ok p := by
  obtain ⟨d, hrun, hfinish⟩ := exists_draft hp
  obtain ⟨_, htidy, hfar⟩ := Building.tidy_manifest hrun
  obtain ⟨hnone, _⟩ := (Draft.finish_ok_iff htidy hfar).1 ⟨p, hfinish⟩
  obtain ⟨d₀, hroute⟩ := Building.exists_route hrun hnone
  exact ⟨d₀, d, hroute, hnone, hfinish⟩

/-- **In another order a manifest still describes a package.** -/
theorem Reordered.exists_build (h : m.Reordered m') {p : Package} (hp : m.build = .ok p) :
    ∃ q, m'.build = .ok q := by
  obtain ⟨d₀, d, hd, hnone, hfinish⟩ := exists_route hp
  -- the walk over the other manifest succeeds as well
  obtain ⟨e, hrun, hnone'⟩ := hd.exists_walk h
  obtain ⟨e₀, he⟩ := Building.exists_route hrun hnone'
  obtain ⟨f, _, hf⟩ := hd.exists_renumbers h he hnone hnone'
  -- and so does freezing, since chains end at corresponding types
  obtain ⟨q, hq⟩ := Draft.exists_finish hf hd.tidy he.tidy hd.far he.far hfinish
  refine ⟨q, ?_⟩
  unfold build
  rw [show (Building.manifest m').run (Draft.start m'.path m'.name) = .ok (⟨⟩, e) from hrun]
  exact hq

/-- **Packages of reordered manifests differ in the ids of their types only.** -/
theorem Reordered.exists_iso (h : m.Reordered m') {p q : Package} (hp : m.build = .ok p)
    (hq : m'.build = .ok q) : ∃ f, p.Iso f q := by
  obtain ⟨d₀, d, hd, hnone, hfinish⟩ := exists_route hp
  obtain ⟨e₀, e, he, hnone', hfinish'⟩ := exists_route hq
  obtain ⟨f, _, hf⟩ := hd.exists_renumbers h he hnone hnone'
  exact ⟨f, Draft.iso_of_finish hf hd.tidy he.tidy hd.far hfinish hfinish'
    fun _ _ => Building.constantsOf_of_finish h hd he hf hfinish hfinish'⟩

/-- **The order of declarations does not matter.**

If either of two reordered manifests describes a package, the other one does.  A compilation of the
two packages gives either schemas with the same methods and the same text, or the same error but
for the numbers of pending types.

Of the two schemas, the containers of both or of neither unfold finitely.  Where they do, the
budgets of `Pool.label` and `Pool.display` are never used up (`Pool.labelWithin_succ`,
`Pool.displayWithin_succ`); beyond that the names and texts of containers have no end, and what is
compared are their parts up to the level where they are cut off. -/
theorem declaration_order (h : m.Reordered m') :
    ((∃ p, m.build = .ok p) ↔ ∃ q, m'.build = .ok q) ∧
      ∀ p q, m.build = .ok p → m'.build = .ok q → ∀ o : CompileOptions,
        (∃ s s', p.compile o = .ok s ∧ q.compile o = .ok s' ∧ (s'.Unfolds ↔ s.Unfolds) ∧
          s'.methods.map (·.name) = s.methods.map (·.name) ∧ s'.text = s.text) ∨
        ∃ e e', p.compile o = .error e ∧ q.compile o = .error e' ∧ e.Agrees e' ∧
          SameButPending e.message e'.message := by
  refine ⟨⟨fun ⟨_, hp⟩ => h.exists_build hp, fun ⟨_, hq⟩ => h.symm.exists_build hq⟩,
    fun p q hp hq o => ?_⟩
  obtain ⟨f, hiso⟩ := h.exists_iso hp hq
  have hf := hiso.types.injective
  -- both compile to schemas that are renamed into each other, or both fail alike
  rcases hiso.compile o with ⟨s, hs, hs'⟩ | ⟨e, e', hs, hs', hagree⟩
  · exact Or.inl ⟨s, s.renamed f, hs, hs', s.unfolds_renamed hf, rfl, s.text_renamed hf⟩
  · exact Or.inr ⟨e, e', hs, hs', hagree, hagree.message⟩

end Manifest

/-! ## §4. Two manifests in two orders. -/

/-- Two enums with constants, an interface and a struct that implements it. -/
def signalManifest : Manifest where
  path := "example.com/signal"
  name := none
  types :=
    [⟨"Color", .type "int", []⟩, ⟨"Mode", .type "int", []⟩,
      ⟨"Lamp", .interface [⟨"Lit", [], [⟨none, "bool"⟩]⟩] [], []⟩,
      ⟨"Torch", .struct [⟨some "Color", "Color"⟩], [⟨"Lit", [], [⟨none, "bool"⟩]⟩]⟩,
      ⟨"Beacon", .struct [],
        [⟨"Show", [⟨some "mode", "Mode"⟩, ⟨some "lamps", "map[string][]Lamp"⟩], []⟩]⟩]
  constants :=
    [⟨"Red", "Color", "0"⟩, ⟨"On", "Mode", "0"⟩, ⟨"Blue", "Color", "1"⟩, ⟨"Off", "Mode", "1"⟩]

/-- The types in reverse, and the constants of each type together. -/
def signalReordered : Manifest where
  path := "example.com/signal"
  name := none
  types := signalManifest.types.reverse
  constants :=
    [⟨"On", "Mode", "0"⟩, ⟨"Off", "Mode", "1"⟩, ⟨"Red", "Color", "0"⟩, ⟨"Blue", "Color", "1"⟩]

/-- What the service of an entrypoint is compiled with. -/
def plainOptions (package entrypoint : String) : CompileOptions where
  package := package
  entrypoint := entrypoint
  excluded := []
  fieldless := []
  service := none
  protoPackage := none
  options := .empty
  sortMethods := false

/-- The types have other ids, and the schema has the same text. -/
theorem declaration_order_signal :
    signalManifest.Reordered signalReordered ∧
      ∃ p q s s', signalManifest.build = .ok p ∧ signalReordered.build = .ok q ∧
        p.lookup? "Beacon" = some (.entry 25) ∧ q.lookup? "Beacon" = some (.entry 21) ∧
        p.compile (plainOptions "example.com/signal" "Beacon") = .ok s ∧
        q.compile (plainOptions "example.com/signal" "Beacon") = .ok s' ∧ s'.text = s.text := by
  have hreordered : signalManifest.Reordered signalReordered :=
    ⟨rfl, rfl, by decide +kernel, by decide +kernel, by decide +kernel⟩
  obtain ⟨hbuild, hcompile⟩ := Manifest.declaration_order hreordered
  -- the two compilations are run, and compared by the theorem
  have hfirst : (signalManifest.build.toOption.any fun p =>
      decide (p.lookup? "Beacon" = some (.entry 25) ∧
        (p.compile (plainOptions "example.com/signal" "Beacon")).toOption.isSome)) = true := by
    decide +kernel
  have hsecond : signalReordered.build.toOption.all
      (fun q => decide (q.lookup? "Beacon" = some (.entry 21))) = true := by
    decide +kernel
  obtain ⟨p, hp, hfirst⟩ := (Option.any_eq_true _ _).1 hfirst
  have hp := eq_ok_of_toOption hp
  obtain ⟨q, hq⟩ := hbuild.1 ⟨p, hp⟩
  rw [hq] at hsecond
  obtain ⟨hbeacon, hcompiles⟩ := of_decide_eq_true hfirst
  refine ⟨hreordered, p, q, ?_⟩
  rcases hcompile p q hp hq (plainOptions "example.com/signal" "Beacon") with
    ⟨s, s', hs, hs', _, _, htext⟩ | ⟨e, _, he, _⟩
  · exact ⟨s, s', hp, hq, hbeacon, of_decide_eq_true hsecond, hs, hs', htext⟩
  · rw [he] at hcompiles
    cases hcompiles

/-- A struct with a map that is keyed by the struct itself. -/
def libraryManifest : Manifest where
  path := "example.com/library"
  name := none
  types :=
    [⟨"Atlas", .struct [⟨some "Index", "map[Atlas]string"⟩], []⟩,
      ⟨"Library", .struct [], [⟨"Lend", [⟨some "atlas", "Atlas"⟩], []⟩]⟩]
  constants := []

/-- The library with its types in reverse. -/
def libraryReordered : Manifest :=
  { libraryManifest with types := libraryManifest.types.reverse }

/-- The key of the map is the struct, which is pending with this number. -/
def atlasPending (number : Nat) : CompileError :=
  ((CompileError.unsupportedMapKey ("<pending " ++ toString number ++ ">")
    "map[library.Atlas]string").within (.field "Index" "Atlas")).within (.parameter 1 "Lend")

/-- **The order shows** where a key is pending. -/
theorem declaration_order_shows_in_pending_keys :
    libraryManifest.Reordered libraryReordered ∧
      (∃ p, libraryManifest.build = .ok p ∧
        p.compile (plainOptions "example.com/library" "Library") = .error (atlasPending 21)) ∧
      (∃ q, libraryReordered.build = .ok q ∧
        q.compile (plainOptions "example.com/library" "Library") = .error (atlasPending 22)) ∧
      (atlasPending 21).message ≠ (atlasPending 22).message := by
  -- the same type has another number in each order
  have hfirst : libraryManifest.build.toOption.any (fun p =>
      decide (p.compile (plainOptions "example.com/library" "Library")
        = .error (atlasPending 21))) = true := by
    decide +kernel
  have hsecond : libraryReordered.build.toOption.any (fun q =>
      decide (q.compile (plainOptions "example.com/library" "Library")
        = .error (atlasPending 22))) = true := by
    decide +kernel
  obtain ⟨p, hp, hfirst⟩ := (Option.any_eq_true _ _).1 hfirst
  obtain ⟨q, hq, hsecond⟩ := (Option.any_eq_true _ _).1 hsecond
  exact ⟨⟨rfl, rfl, by decide +kernel, by decide +kernel, by decide +kernel⟩,
    ⟨p, eq_ok_of_toOption hp, of_decide_eq_true hfirst⟩,
    ⟨q, eq_ok_of_toOption hq, of_decide_eq_true hsecond⟩, by decide +kernel⟩

end RpcSchema
