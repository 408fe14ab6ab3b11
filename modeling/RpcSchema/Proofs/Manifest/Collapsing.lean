/-
  RpcSchema.Proofs.Manifest.Collapsing
  ────────────────────────────────────
  **EVERY CHAIN OF NAMES ENDS OR GOES ROUND, AND FREEZING TELLS WHICH.**

  When all declarations are read, every name stands for something that is
  there.  So a chain that does not end runs into a cycle, and it is the
  first declared type with such a chain that a failing freeze reports.
  If all chains end, one universe comes out of collapsing them, in
  whatever order they are taken.

  Main statements: `Route.defined` (the walk defines what it declares),
  `ends_or_circles`, `finish_error_of_circles` and
  `freezing_collapses_chains`.
-/
import RpcSchema.Proofs.Graph.Cycle
import RpcSchema.Proofs.Manifest.Renumbering
import RpcSchema.Proofs.Manifest.Route

namespace RpcSchema

/-! ## §1. Chains that go round. -/

namespace Universe

/-- `n` is a name for `m`. -/
def StandsFor (u : Universe) (n m : NativeId) : Prop :=
  ∃ decl, u.kind n = .named decl ∧ decl.underlying = m

/-- From `n` the names lead to a cycle of names. -/
def Circles (u : Universe) (n : NativeId) : Prop :=
  ∃ c, Relation.ReflTransGen u.StandsFor n c ∧ Relation.TransGen u.StandsFor c c

/-- The members of `P` are names for members of `P`. -/
def Endless (u : Universe) (P : NativeId → Prop) : Prop :=
  ∀ n, P n → ∃ decl, u.kind n = .named decl ∧ P decl.underlying

variable {u : Universe} {P : NativeId → Prop} {n id s shape : NativeId} {passed : List NativeId}

/-- What goes round stands for what goes round. -/
theorem endless_circles (u : Universe) : u.Endless u.Circles := by
  rintro n ⟨c, hnc, hcc⟩
  -- the first step goes to the cycle, or along it
  have hstep : ∃ m, u.StandsFor n m ∧ u.Circles m := by
    rcases Relation.ReflTransGen.cases_head hnc with rfl | ⟨m, hnm, hmc⟩
    · obtain ⟨m, hnm, hmn⟩ := Relation.TransGen.head'_iff.1 hcc
      exact ⟨m, hnm, n, hmn, hcc⟩
    · exact ⟨m, hnm, c, hmc, hcc⟩
  obtain ⟨_, ⟨decl, hn, rfl⟩, hm⟩ := hstep
  exact ⟨decl, hn, hm⟩

theorem Endless.isNamed (hP : u.Endless P) (hn : P n) : (u.kind n).isNamed = true := by
  obtain ⟨decl, hk, _⟩ := hP n hn
  rw [hk]
  rfl

/-- A chain that ends meets no such names. -/
theorem Chain.not_endless (hP : u.Endless P) (h : u.Chain n passed s) : ¬ P n := by
  -- a set that never ends is not left along the chain, yet the chain ends
  induction h with
  | @last n decl hn _ hend =>
    intro hPn
    obtain ⟨decl', hn', hunder⟩ := hP n hPn
    obtain rfl := NativeKind.named.inj (hn.symm.trans hn')
    rw [hP.isNamed hunder] at hend
    cases hend
  | @step n decl passed s hn _ ih =>
    intro hPn
    obtain ⟨decl', hn', hunder⟩ := hP n hPn
    obtain rfl := NativeKind.named.inj (hn.symm.trans hn')
    exact ih hunder

theorem Chain.not_circles (h : u.Chain n passed s) : ¬ u.Circles n :=
  h.not_endless (endless_circles u)

/-- To collapse another chain leaves them endless. -/
theorem Endless.setUnderlying (hP : u.Endless P) (hid : ¬ P id) :
    (u.setUnderlying id shape).Endless P := by
  intro n hn
  obtain ⟨decl, hk, hunder⟩ := hP n hn
  have hne : n ≠ id := fun hni => hid (hni ▸ hn)
  exact ⟨decl, (kind_setUnderlying_of_ne _ hne).trans hk, hunder⟩

/-- **An endless chain exhausts all hops**, and is reported under its first name. -/
theorem Endless.chainEnd_eq (hP : u.Endless P) (entered : NativeId) (hops : Nat) (hn : P n) :
    Draft.chainEnd u entered hops n = .error (.undefined (Draft.nameOf u entered)) := by
  -- on the hops that are left: each of them leads to a name
  induction hops generalizing n with
  | zero => rfl
  | succ hops ih =>
    obtain ⟨decl, hk, hunder⟩ := hP n hn
    obtain ⟨decl', hk', _⟩ := hP _ hunder
    have hdefined : decl.underlying ≠ .undefined := by
      intro hu
      rw [hu] at hk'
      cases hk'
    simp only [Draft.chainEnd, named?_eq_some_iff.2 hk, hdefined, if_false,
      named?_eq_some_iff.2 hk']
    exact ih hunder

/-- **A chain ends or goes round**, if every name stands for something and names for names are
listed. -/
theorem ends_or_circles {listed : List NativeId}
    (hlisted : ∀ n decl, u.kind n = .named decl → (u.kind decl.underlying).isNamed = true →
      n ∈ listed)
    (hdefined : ∀ n decl, u.kind n = .named decl → decl.underlying ≠ .undefined)
    (hn : (u.kind n).isNamed = true) : (∃ passed s, u.Chain n passed s) ∨ u.Circles n := by
  by_contra hneither
  obtain ⟨hends, hcircles⟩ := not_or.1 hneither
  -- as long as the chain has not ended the next name is another one without an end
  have hnext : ∀ a, ((u.kind a).isNamed = true ∧ ¬ ∃ passed s, u.Chain a passed s) →
      ∃ b, u.StandsFor a b ∧ (u.kind b).isNamed = true ∧ ¬ ∃ passed s, u.Chain b passed s := by
    rintro a ⟨hname, hopen⟩
    obtain ⟨decl, ha⟩ := exists_named hname
    refine ⟨decl.underlying, ⟨decl, ha, rfl⟩, ?_, ?_⟩
    · by_contra hend
      exact hopen ⟨[a], _, .last ha (hdefined a decl ha) (by simpa using hend)⟩
    · rintro ⟨passed, s, hrest⟩
      exact hopen ⟨a :: passed, s, .step ha hrest⟩
  have hnodes : ∀ a, ((u.kind a).isNamed = true ∧ ¬ ∃ passed s, u.Chain a passed s) →
      a ∈ listed := by
    intro a ha
    obtain ⟨_, ⟨decl, hk, rfl⟩, hunder, _⟩ := hnext a ha
    exact hlisted a decl hk hunder
  obtain ⟨c, _, hnc, hcc⟩ := Graph.exists_cycle hnodes hnext ⟨hn, hends⟩ []
    fun k hk => absurd hk List.not_mem_nil
  exact hcircles ⟨c, hnc, hcc⟩

/-- A universe is known by its size and by what its ids stand for. -/
theorem eq_of_kinds {u v : Universe} (hsize : v.size = u.size)
    (hkinds : ∀ n, v.kind n = u.kind n) : v = u := by
  obtain ⟨ks⟩ := u
  obtain ⟨ks'⟩ := v
  congr 1
  refine Array.ext hsize fun i hi hi' => ?_
  have hk := hkinds (.entry i)
  simpa only [kind, Array.getD_eq_getD_getElem?, Array.getElem?_eq_getElem hi,
    Array.getElem?_eq_getElem hi', Option.getD_some] using hk

end Universe

/-! ## §2. Collapsing in any order. -/

namespace Draft

variable {u v v' : Universe} {ids ids' : List NativeId} {hops : Nat}

theorem Frozen.has (h : Frozen ids u v) {n : NativeId} (hn : u.Has n) : v.Has n := by
  obtain ⟨i, hi, rfl⟩ := hn
  exact ⟨i, Nat.lt_of_lt_of_eq hi h.size.symm, rfl⟩

/-- To freeze names keeps them names, and makes no others. -/
theorem Frozen.isNamed_eq (h : Frozen ids u v) (hnamed : ∀ n ∈ ids, (u.kind n).isNamed = true)
    (n : NativeId) : (v.kind n).isNamed = (u.kind n).isNamed := by
  by_cases hn : n ∈ ids
  · obtain ⟨decl, hk⟩ := Universe.exists_named (hnamed n hn)
    obtain ⟨_, s, _, hv⟩ := h.collapsed n hn decl hk
    rw [hv, hk]
    rfl
  · rw [h.kept n hn]

/-- **What the types are frozen to does not depend on their order.** -/
theorem Frozen.unique (h : Frozen ids u v) (h' : Frozen ids' u v')
    (hids : ∀ n, n ∈ ids' ↔ n ∈ ids) (hnamed : ∀ n ∈ ids, (u.kind n).isNamed = true) : v' = v := by
  refine Universe.eq_of_kinds (h'.size.trans h.size.symm) fun n => ?_
  by_cases hn : n ∈ ids
  · obtain ⟨decl, hk⟩ := Universe.exists_named (hnamed n hn)
    obtain ⟨passed, s, hchain, hv⟩ := h.collapsed n hn decl hk
    obtain ⟨passed', s', hchain', hv'⟩ := h'.collapsed n ((hids n).2 hn) decl hk
    rw [hv, hv', (hchain.unique hchain').2]
  · rw [h.kept n hn, h'.kept n (mt (hids n).1 hn)]

/-- What a type stands for does not change its name. -/
theorem nameOf_setUnderlying (u : Universe) (id shape n : NativeId) :
    nameOf (u.setUnderlying id shape) n = nameOf u n := by
  rcases Universe.kind_modifyNamed u id (fun decl => { decl with underlying := shape }) n with
    hold | ⟨decl, hn, hnew⟩
  · unfold nameOf Universe.named?
    rw [Universe.setUnderlying, hold]
  · have hset : (u.setUnderlying id shape).kind n = .named { decl with underlying := shape } := hnew
    rw [Universe.nameOf_of_kind hn, Universe.nameOf_of_kind hset]

/-- **Collapsing stops at the first chain without an end.**  By induction on the chains before it;
to collapse these leaves it endless. -/
theorem collapse_eq_error {P : NativeId → Prop} {before after : List NativeId} {id : NativeId}
    (hP : u.Endless P) (hid : P id)
    (hbefore : ∀ n ∈ before, ∃ passed s, u.Chain n passed s ∧ passed.length ≤ hops) :
    collapse hops u (before ++ id :: after) = .error (.undefined (nameOf u id)) := by
  -- on the names in front, which are frozen first and leave the cycle as it is
  induction before generalizing u with
  | nil =>
    rw [List.nil_append, collapse, hP.chainEnd_eq id hops hid]
  | cons n before ih =>
    obtain ⟨via, shape, hn, hle⟩ := hbefore n List.mem_cons_self
    rw [List.cons_append, collapse, hn.chainEnd_eq n hle, ← nameOf_setUnderlying u n shape id]
    refine ih (hP.setUnderlying (hn.not_endless hP)) fun k hk => ?_
    obtain ⟨passed, s, hchain, hle'⟩ := hbefore k (List.mem_cons_of_mem n hk)
    obtain ⟨passed', hchain', hle''⟩ := hn.collapsed hchain
    exact ⟨passed', s, hchain', Nat.le_trans hle'' hle'⟩

/-! ## §3. What the walk leaves. -/

variable {d : Draft}

/-- A declared type has the name it is declared with. -/
theorem Tidy.nameOf_declared (h : d.Tidy) {x : String × NativeId} (hx : x ∈ d.declared) :
    nameOf d.types x.2 = x.1 := by
  obtain ⟨decl, hk⟩ := Universe.exists_named (h.declared x hx)
  have hfound : d.find? (.declared x.1) = some x.2 := Sequence.lookup_of_mem hx h.names
  rw [Universe.nameOf_of_kind hk]
  -- the declaration is listed under its own name
  cases h.origin x.2 decl hk with
  | builtin hn =>
    have herror : d.find? .error = some x.2 := congrArg some hn.symm
    cases h.title_unique hfound herror
  | declared hmem _ => exact Title.declared.inj (h.title_unique (Sequence.lookup_of_mem hmem h.names) hfound)
  | @foreign package hmem _ =>
    have hforeign : d.find? (.foreign package decl.name) = some x.2 := Sequence.lookup_of_mem hmem h.keys
    cases h.title_unique hfound hforeign

end Draft

namespace Building

open Draft

variable {m : Manifest} {d₀ d : Draft}

/-- **What is declared is defined**: after the walk every name stands for something that is
there. -/
theorem Route.defined (hd : Route m d₀ d) {n : NativeId} {decl : NamedType}
    (hn : d.types.kind n = .named decl) : d.types.Has decl.underlying := by
  cases hd.tidy.origin n decl hn with
  | builtin hne =>
    refine Universe.has_of_kind_ne ?_
    rw [hd.tidy.underlying_error (hne ▸ hn)]
    exact NativeKind.noConfusion
  | foreign hmem _ =>
    refine Universe.has_of_kind_ne ?_
    rw [hd.far.underlying hmem hn]
    exact NativeKind.noConfusion
  | declared hmem _ =>
    have hlook := Sequence.lookup_of_mem hmem hd.tidy.names
    obtain ⟨source, hsource, hname⟩ := hd.exists_decl hlook
    obtain ⟨id, E₁, E₂, hid, hv⟩ := hd.types source hsource
    obtain rfl : id = n := by
      rw [← hd.lookup_eq, hname] at hid
      exact Option.some.inj (hid.symm.trans hlook)
    -- the visit gives it an underlying type that the finished draft holds
    have hk := hd.undefined hid hv
    obtain ⟨F', l, l', hrun, _, _, hl, hl', hmatch⟩ :=
      redefines_type source (akin_refl E₁) hk hk hv.visit
    obtain ⟨_, rfl⟩ := runs_unique hv.visit hrun
    obtain ⟨hmatches, _⟩ := hmatch d d (hd.completes hv.after) (hd.completes hv.after) ⟨rfl, rfl⟩
    obtain rfl := NativeKind.named.inj ((hv.after.kind_of_named hl).symm.trans hn)
    obtain ⟨_, hparts⟩ := hmatches
    cases hparts with
    | cons htwin _ => exact htwin.has_left hd.tidy

end Building

/-! ## §4. Freezing a draft. -/

namespace Draft

variable {d : Draft}

/-- The package that comes out of collapsing the chains of a draft. -/
structure CollapsesTo (d : Draft) (pkg : Package) : Prop where
  /-- Only the universe is another one. -/
  rest : pkg = ⟨d.path, d.name, pkg.types, d.declared, d.constants⟩
  /-- The declared types stand for the ends of their chains, and all else is as it was. -/
  frozen : Frozen (d.declared.map (·.2)) d.types pkg.types
  /-- It comes out whichever chains are collapsed first. -/
  anyOrder : ∀ order : List NativeId, (∀ n, n ∈ order ↔ n ∈ d.declared.map (·.2)) →
    collapse (d.declared.length + 1) d.types order = .ok pkg.types
  /-- Every name stands for something that is there and has no name. -/
  settled : ∀ n decl, pkg.types.kind n = .named decl → pkg.types.underlying n = decl.underlying ∧
    pkg.types.Has decl.underlying ∧ (pkg.types.kind decl.underlying).isNamed = false

section Freezing

variable (htidy : d.Tidy) (hfar : d.Opaque)
include htidy hfar

/-- A chain that ends takes no more hops than there are. -/
theorem Tidy.exists_hops {n : NativeId} {passed : List NativeId} {s : NativeId}
    (h : d.types.Chain n passed s) : passed.length ≤ d.declared.length + 1 := by
  have hle := h.length_le fun n decl hn hu => htidy.mem_declared hfar hn hu
  rwa [List.length_map] at hle

/-- Freezing collapses the chains, and would do so in any order. -/
theorem Tidy.collapse_any {pkg : Package} (hpkg : d.finish = .ok pkg) {order : List NativeId}
    (horder : ∀ n, n ∈ order ↔ n ∈ d.declared.map (·.2)) :
    collapse (d.declared.length + 1) d.types order = .ok pkg.types := by
  obtain ⟨_, hchains⟩ := (finish_ok_iff htidy hfar).1 ⟨pkg, hpkg⟩
  obtain ⟨_, hfrozen, _⟩ := frozen_of_finish htidy hpkg
  have hnamed : ∀ n ∈ d.declared.map (·.2), (d.types.kind n).isNamed = true :=
    fun n hn => htidy.isNamed_declared hn
  -- no chain fails, whatever the order
  obtain ⟨v, hv⟩ : ∃ v, collapse (d.declared.length + 1) d.types order = .ok v := by
    refine exists_collapse fun n hn => ?_
    obtain ⟨passed, s, hchain⟩ := hchains n ((horder n).1 hn)
    exact ⟨passed, s, hchain, htidy.exists_hops hfar hchain⟩
  -- and what chains collapse to determines the result
  have hv' := frozen_of_collapse (fun n hn => hnamed n ((horder n).1 hn)) hv
  rw [hv, hfrozen.unique hv' horder hnamed]

/-- **A failing freeze names the first declared type whose chain goes round.** -/
theorem Tidy.finish_error_of_circles (hrepeated : d.repeated = [])
    {before after : List (String × NativeId)} {x : String × NativeId}
    (hdeclared : d.declared = before ++ x :: after) (hx : d.types.Circles x.2)
    (hbefore : ∀ y ∈ before, ∃ passed s, d.types.Chain y.2 passed s) :
    d.finish = .error (.undefined x.1) := by
  have hmem : x ∈ d.declared := hdeclared ▸ List.mem_append_right _ List.mem_cons_self
  have herror : collapse (d.declared.length + 1) d.types (d.declared.map (·.2))
      = .error (.undefined x.1) := by
    rw [← htidy.nameOf_declared hmem]
    -- the number of hops is that of all declared types, also of those after the cycle
    generalize hhops : d.declared.length + 1 = hops
    rw [hdeclared, List.map_append, List.map_cons]
    refine collapse_eq_error (Universe.endless_circles d.types) hx fun n hn => ?_
    obtain ⟨y, hy, rfl⟩ := List.mem_map.1 hn
    obtain ⟨passed, s, hchain⟩ := hbefore y hy
    exact ⟨passed, s, hchain, hhops ▸ htidy.exists_hops hfar hchain⟩
  unfold finish
  rw [hrepeated]
  simp only [herror]

end Freezing

end Draft

namespace Building

open Draft

variable {m : Manifest} {d₀ d : Draft}

/-- Between a package and the draft it was frozen from. -/
theorem Route.collapsesTo (hd : Route m d₀ d) {pkg : Package} (hpkg : d.finish = .ok pkg) :
    d.CollapsesTo pkg := by
  obtain ⟨_, hfrozen, hrest⟩ := frozen_of_finish hd.tidy hpkg
  refine ⟨hrest, hfrozen, fun order horder => hd.tidy.collapse_any hd.far hpkg horder,
    fun n decl hn => ?_⟩
  have hnamed : ∀ k ∈ d.declared.map (·.2), (d.types.kind k).isNamed = true :=
    fun k hk => hd.tidy.isNamed_declared hk
  -- what the name stands for is there in the draft already
  obtain ⟨hthere, hshape⟩ : d.types.Has decl.underlying ∧
      (d.types.kind decl.underlying).isNamed = false := by
    by_cases hmem : n ∈ d.declared.map (·.2)
    · obtain ⟨x, hx, rfl⟩ := List.mem_map.1 hmem
      obtain ⟨decl₀, hk⟩ := Universe.exists_named (hd.tidy.declared x hx)
      obtain ⟨passed, s, hchain, hv⟩ := hfrozen.collapsed x.2 hmem decl₀ hk
      obtain rfl := NativeKind.named.inj (hv.symm.trans hn)
      obtain ⟨k, declk, hkk, rfl⟩ := hchain.exists_underlying
      have hdefined : d.types.Has declk.underlying := hd.defined hkk
      exact ⟨hdefined, hchain.end_not_named⟩
    · have hk : d.types.kind n = .named decl := (hfrozen.kept n hmem).symm.trans hn
      refine ⟨hd.defined hk, ?_⟩
      by_contra hnot
      exact hmem (hd.tidy.mem_declared hd.far hk (by simpa using hnot))
  refine ⟨?_, hfrozen.has hthere, (hfrozen.isNamed_eq hnamed _).trans hshape⟩
  have hdefined : decl.underlying ≠ .undefined := by
    intro hu
    rw [hu] at hthere
    obtain ⟨i, _, hi⟩ := hthere
    cases hi
  simp only [Universe.underlying, hn, hdefined, if_false]

/-- After the walk a chain ends unless it goes round. -/
theorem Route.circles_iff (hd : Route m d₀ d) {n : NativeId}
    (hn : (d.types.kind n).isNamed = true) :
    d.types.Circles n ↔ ¬ ∃ passed s, d.types.Chain n passed s := by
  constructor
  · rintro hcircles ⟨passed, s, hchain⟩
    exact hchain.not_circles hcircles
  · intro hends
    -- the names that stand for names are among those that are declared, so there are finitely many
    have hlisted : ∀ k decl, d.types.kind k = .named decl →
        (d.types.kind decl.underlying).isNamed = true → k ∈ d.declared.map (·.2) :=
      fun k decl hk hu => hd.tidy.mem_declared hd.far hk hu
    have hdefined : ∀ k decl, d.types.kind k = .named decl → decl.underlying ≠ .undefined := by
      intro k decl hk hu
      obtain ⟨i, _, hi⟩ := hd.defined hk
      rw [hu] at hi
      cases hi
    exact (Universe.ends_or_circles hlisted hdefined hn).resolve_left hends

/-- **Freezing collapses the chains exactly**: it succeeds if every declared type leads to a shape,
and to the same universe in any order; else a chain goes round, and the first one is reported. -/
theorem freezing_collapses_chains
    (hrun : Runs (manifest m) (start m.path m.name) ⟨⟩ d) (hrepeated : d.repeated = []) :
    ((∃ pkg, d.finish = .ok pkg) ↔ ∀ x ∈ d.declared, ∃ passed s, d.types.Chain x.2 passed s) ∧
      (∀ pkg, d.finish = .ok pkg → d.CollapsesTo pkg) ∧
      (∀ x ∈ d.declared, d.types.Circles x.2 ↔ ¬ ∃ passed s, d.types.Chain x.2 passed s) ∧
      ((∃ x ∈ d.declared, d.types.Circles x.2) → ∃ before x after,
        d.declared = before ++ x :: after ∧ (∀ y ∈ before, ¬ d.types.Circles y.2) ∧
          d.types.Circles x.2 ∧ d.finish = .error (.undefined x.1)) := by
  obtain ⟨d₀, hd⟩ := exists_route hrun hrepeated
  have hiff : ∀ x ∈ d.declared, d.types.Circles x.2 ↔ ¬ ∃ passed s, d.types.Chain x.2 passed s :=
    fun x hx => hd.circles_iff (hd.tidy.declared x hx)
  refine ⟨?_, fun pkg hpkg => hd.collapsesTo hpkg, hiff, fun hcircles => ?_⟩
  · rw [finish_ok_iff hd.tidy hd.far]
    simp only [hrepeated, true_and, List.forall_mem_map]
  · classical
    -- the first declared name that leads to a cycle
    obtain ⟨x, hfind⟩ : ∃ x, d.declared.find? (fun y => d.types.Circles y.2) = some x := by
      rw [← Option.isSome_iff_exists, List.find?_isSome]
      simpa using hcircles
    obtain ⟨hx, before, after, hdeclared, hbefore⟩ := List.find?_eq_some_iff_append.1 hfind
    have hbefore' : ∀ y ∈ before, ¬ d.types.Circles y.2 := by simpa using hbefore
    refine ⟨before, x, after, hdeclared, hbefore', of_decide_eq_true hx, ?_⟩
    refine hd.tidy.finish_error_of_circles hd.far hrepeated hdeclared (of_decide_eq_true hx)
      fun y hy => ?_
    -- the chains of those in front end, so they are frozen before it
    have hmem : y ∈ d.declared := hdeclared ▸ List.mem_append_left _ hy
    exact Classical.not_not.1 (mt (hiff y hmem).2 (hbefore' y hy))

/-! Chains over names of another package and over `error`, and chains that go round. -/

/-- `Pier` leads over `Quay` to a type of another package, and `Storm` over `Gale` to `error`. -/
def quayManifest : Manifest where
  path := "example.com/quay"
  name := none
  types :=
    [⟨"Pier", .type "Quay", []⟩, ⟨"Quay", .type "stone.Wall", []⟩, ⟨"Storm", .type "Gale", []⟩,
      ⟨"Gale", .type "error", []⟩]
  constants := []

/-- `Eddy` leads to `Whirl` and `Pool`, which lead to each other. -/
def whirlManifest : Manifest where
  path := "example.com/whirl"
  name := none
  types :=
    [⟨"Depth", .type "int", []⟩, ⟨"Eddy", .type "Whirl", []⟩, ⟨"Whirl", .type "Pool", []⟩,
      ⟨"Pool", .type "Whirl", []⟩]
  constants := []

/-- All chains of the first manifest end.  Those of the second do not, and `Eddy` is reported, whose
chain leads to the cycle but is not on it. -/
theorem freezing_collapses_chains_quay :
    (∃ d pkg, Runs (manifest quayManifest) (start quayManifest.path quayManifest.name) ⟨⟩ d ∧
      d.repeated = [] ∧ d.finish = .ok pkg ∧ d.CollapsesTo pkg ∧
      ∀ x ∈ d.declared, ∃ passed s, d.types.Chain x.2 passed s) ∧
    ∃ d, Runs (manifest whirlManifest) (start whirlManifest.path whirlManifest.name) ⟨⟩ d ∧
      d.repeated = [] ∧ d.finish = .error (.undefined "Eddy") ∧
      ∃ x ∈ d.declared, d.types.Circles x.2 := by
  have hquay : ((manifest quayManifest).run (start quayManifest.path quayManifest.name)).toOption.any
      (fun x => decide (x.2.repeated = [] ∧ x.2.finish.toOption.isSome)) = true := by
    decide +kernel
  have hwhirl : ((manifest whirlManifest).run
      (start whirlManifest.path whirlManifest.name)).toOption.any
      (fun x => decide (x.2.repeated = [] ∧ x.2.finish = .error (.undefined "Eddy"))) = true := by
    decide +kernel
  obtain ⟨⟨_, d⟩, hrun, hok⟩ := (Option.any_eq_true _ _).1 hquay
  obtain ⟨⟨_, e⟩, hrun', hbad⟩ := (Option.any_eq_true _ _).1 hwhirl
  obtain ⟨hrepeated, hfinishes⟩ := of_decide_eq_true hok
  obtain ⟨hrepeated', herror⟩ := of_decide_eq_true hbad
  have hrun := eq_ok_of_toOption hrun
  have hrun' := eq_ok_of_toOption hrun'
  obtain ⟨pkg, hpkg⟩ := Option.isSome_iff_exists.1 hfinishes
  have hpkg := eq_ok_of_toOption hpkg
  obtain ⟨hiff, hcollapses, _, _⟩ := freezing_collapses_chains hrun hrepeated
  obtain ⟨hiff', _, hcircles', _⟩ := freezing_collapses_chains hrun' hrepeated'
  refine ⟨⟨d, pkg, hrun, hrepeated, hpkg, hcollapses pkg hpkg, hiff.1 ⟨pkg, hpkg⟩⟩,
    e, hrun', hrepeated', herror, ?_⟩
  -- if none went round all would end
  by_contra hnone
  obtain ⟨pkg', hpkg'⟩ := hiff'.2 fun x hx =>
    Classical.not_not.1 (mt (hcircles' x hx).2 fun hx' => hnone ⟨x, hx, hx'⟩)
  rw [herror] at hpkg'
  cases hpkg'

end Building

end RpcSchema
