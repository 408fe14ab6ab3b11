/-
  RpcSchema.Proofs.Conversion.Convertible
  ───────────────────────────────────────
  **A NATIVE CONVERTS EXACTLY IF IT LEADS TO NOTHING UNCONVERTIBLE.**

  The run that decides it is a depth-first walk with a cache and with
  references to natives in progress.  None of this shows: on the first
  pool the answer is that of plain reachability, for every native of every
  package that a manifest describes, as long as no pointers go round in a
  circle of pointers.

  What is unconvertible is a short list.  The test of map keys is made on
  the pool, and a kind that a name stands for may be anything; the list is
  complete because the test agrees with the types of the package, and
  because in a package a name stands for a shape.

  Main statement: `converts_iff_reaches`.
-/
import RpcSchema.Proofs.Conversion.History
import RpcSchema.Proofs.Conversion.Loop
import RpcSchema.Proofs.Manifest.Freezing

namespace RpcSchema

namespace Source

open Conversion

variable (s : Source)

/-! ## §1. What is unconvertible. -/

/-- The native `n` has no conversion of its own, for the reason `c`.  Of a map with a key that is
none the text of the key is left open. -/
inductive Unconvertible (n : NativeId) : CompileError → Prop
  /-- A basic kind without a scalar. -/
  | basic {kind} (hn : s.types.kind n = .basic kind) (hc : kind.scalar? = none) :
      Unconvertible n (.unsupportedScalar (s.types.spell n) kind.name)
  /-- A name for one that has no enumeration. -/
  | declared {decl kind} (hn : s.Declares n decl (.basic kind)) (he : s.enums.lookup n = none)
      (hc : kind.scalar? = none) :
      Unconvertible n (.unsupportedScalar (s.types.spell n) kind.name)
  /-- An unnamed interface that asks for methods. -/
  | interface {asked} (hn : s.types.kind n = .interface asked)
      (hasks : s.types.methodSet n ≠ []) :
      Unconvertible n (.unsupportedShape (s.types.spell n) .interface)
  /-- An unnamed struct. -/
  | struct {fields} (hn : s.types.kind n = .struct fields) :
      Unconvertible n (.unsupportedShape (s.types.spell n) .struct)
  | tuple {elems} (hn : s.types.kind n = .tuple elems) :
      Unconvertible n (.unsupportedShape (s.types.spell n) .tuple)
  | key {key value text} (hn : s.types.kind n = .map key value) (hkey : ¬ s.KeyType key) :
      Unconvertible n (.unsupportedMapKey text (s.types.spell n))

variable {s} {n m : NativeId} {c : CompileError}

/-- What is unconvertible offends. -/
theorem Unconvertible.offends (h : s.Unconvertible n c) : s.Offends n c := by
  cases h with
  | basic hn hc => exact .basic hn hc
  | declared hn he hc => exact .declared hn he hc
  | interface hn hasks => exact .shape (.interface hn hasks)
  | struct hn => exact .shape (.struct hn)
  | tuple hn => exact .shape (.tuple hn)
  | key hn hkey => exact .key hn hkey

/-- Where names stand for shapes, nothing else stands in the way of a conversion. -/
theorem Offends.unconvertible
    (hshapes : ∀ n decl, s.types.kind n = .named decl →
      (s.types.kind decl.underlying).isNamed = false ∧
        (s.types.kind decl.underlying).shape ≠ .tuple)
    (h : s.Offends n c) : s.Unconvertible n c := by
  cases h with
  | basic hn hc => exact .basic hn hc
  | declared hn he hc => exact .declared hn he hc
  | key hn hkey => exact .key hn hkey
  | shape hn =>
    cases hn with
    | struct hn => exact .struct hn
    | tuple hn => exact .tuple hn
    | interface hn hasks => exact .interface hn hasks
    -- the shape behind a name is no name
    | named hn =>
      have hname := (hshapes n _ hn.1).1
      rw [hn.2.2] at hname
      cases hname
    -- nor is it one that is missing
    | undefined hn =>
      have htuple := (hshapes n _ hn.1).2
      rw [hn.2.2] at htuple
      exact absurd rfl htuple

/-! ## §2. Pointers. -/

/-- **Pointers that do not go round in a circle come to an end.** -/
theorem pointersEnd_of_acyclic (h : ∀ k, ¬ Relation.TransGen s.PointsTo k k) (n : NativeId) :
    s.PointersEnd n := by
  intro m _ hend
  -- a walk along pointers without an end meets some native again, as there are finitely many
  obtain ⟨k, _, _, hcycle⟩ := Graph.exists_cycle (R := s.PointsTo)
    (P := fun a => Relation.ReflTransGen s.PointsTo m a)
    (fun a ha => by
      obtain ⟨b, hb⟩ := hend a ha
      exact mem_ids_of_pointsTo hb)
    (fun a ha => by
      obtain ⟨b, hb⟩ := hend a ha
      exact ⟨b, hb, ha.tail hb⟩)
    (Relation.ReflTransGen.refl (a := m)) [] fun _ hk => absurd hk List.not_mem_nil
  exact h k hcycle

end Source

/-! ## §3. Packages. -/

open Conversion

/-- **What converts.**

In every package that a manifest describes, if no pointers and named pointers go round in a
circle, a native converts on the first pool exactly if it leads to no native that is unconvertible;
and if it does not convert, the error, its places aside, is that of such a native. -/
theorem converts_iff_reaches {m : Manifest} {pkg : Package} (hbuild : m.build = .ok pkg)
    (fieldless : List String)
    (hacyclic : ∀ k, ¬ Relation.TransGen (pkg.source fieldless).PointsTo k k) (n : NativeId) :
    ((∃ t q, ((pkg.source fieldless).convert n).Yields Pool.start t q) ↔
      ∀ k c, Graph.Reaches (pkg.source fieldless).edges n k →
        ¬ (pkg.source fieldless).Unconvertible k c) ∧
    (∀ e q, ((pkg.source fieldless).convert n).outcome Pool.start = (.error e, q) →
      ∃ k, Graph.Reaches (pkg.source fieldless).edges n k ∧
        (pkg.source fieldless).Unconvertible k e.root) := by
  have hend : (pkg.source fieldless).PointersEnd n := Source.pointersEnd_of_acyclic hacyclic n
  have hended : ∀ k, Pool.start.slot k ≠ some .inProgress := fun k h => by cases h
  have hshapes : ∀ k decl, pkg.types.kind k = .named decl →
      (pkg.types.kind decl.underlying).isNamed = false ∧
        (pkg.types.kind decl.underlying).shape ≠ .tuple :=
    fun _ _ hk => Manifest.shape_of_named hbuild hk
  constructor
  · -- the first pool is empty, so what a conversion enters is all that is reached
    rw [Source.yields_iff_enters Source.grounded_start hended hend]
    constructor
    · intro hfree k c hk hun
      exact hfree k c (Source.enters_start.2 hk) hun.offends
    · intro hfree k c hk hoff
      exact hfree k c hk.reaches (hoff.unconvertible hshapes)
  · -- the error is that of an offence that the conversion went to
    intro e q hrun
    obtain ⟨k, hk, i, hi, hoff⟩ := (Source.breaks_of_convert ⟨e, hrun, rfl⟩).exists_offends
      Source.grounded_start (Source.under_of_ended hended _)
      fun k hk => List.mem_singleton.1 hk ▸ hend
    rw [List.mem_singleton.1 hk] at hi
    exact ⟨i, hi.reaches, hoff.unconvertible hshapes⟩

/-! ## §4. An implementation that stands in the way. -/

/-- `type Vessel interface { Dock(berth int32) bool }`, a struct `Tug` that implements it and has a
complex field, and a struct `Harbor` with a pointer to itself and a map of vessels. -/
def harborManifest : Manifest where
  path := "example.com/harbor"
  name := none
  types :=
    [⟨"Vessel", .interface [⟨"Dock", [⟨some "berth", "int32"⟩], [⟨none, "bool"⟩]⟩] [], []⟩,
      ⟨"Tug", .struct [⟨some "Name", "string"⟩, ⟨some "Drag", "complex128"⟩],
        [⟨"Dock", [⟨some "berth", "int32"⟩], [⟨none, "bool"⟩]⟩]⟩,
      ⟨"Harbor", .struct [⟨some "Next", "*Harbor"⟩, ⟨some "Berths", "map[string]Vessel"⟩], []⟩]
  constants := []

/-- The method `Dock`. -/
def dockMethod : Method :=
  ⟨"Dock", [⟨some "berth", .basic .int32⟩], [⟨none, .basic .bool⟩], false⟩

/-- The package of `harborManifest`. -/
def harborPackage : Package where
  path := "example.com/harbor"
  name := "harbor"
  types := ⟨Universe.predeclared.kinds ++
    #[.named ⟨"Vessel", some "example.com/harbor", .entry 24, []⟩,
      .named ⟨"Tug", some "example.com/harbor", .entry 25, [dockMethod]⟩,
      .named ⟨"Harbor", some "example.com/harbor", .entry 28, []⟩,
      .interface ⟨[dockMethod], []⟩,
      .struct [⟨"Name", .basic .string, false⟩, ⟨"Drag", .basic .complex128, false⟩],
      .pointer (.entry 23),
      .map (.basic .string) (.entry 21),
      .struct [⟨"Next", .entry 26, false⟩, ⟨"Berths", .entry 27, false⟩]]⟩
  declared := [("Vessel", .entry 21), ("Tug", .entry 22), ("Harbor", .entry 23)]
  constants := []

theorem harbor_build : harborManifest.build = .ok harborPackage := by
  have hbuild : harborManifest.build.toOption = some harborPackage := by
    decide +kernel
  exact eq_ok_of_toOption hbuild

/-- The only pointer of the package leads to a struct. -/
theorem harbor_acyclic (k : NativeId) :
    ¬ Relation.TransGen (harborPackage.source []).PointsTo k k := by
  intro hcycle
  -- from every pointer of the package there is no second one
  have hone : ∀ k ∈ (harborPackage.source []).types.ids,
      ((harborPackage.source []).pointee k).bind (harborPackage.source []).pointee = none := by
    decide +kernel
  obtain ⟨a, ha, hak⟩ := Relation.TransGen.head'_iff.1 hcycle
  -- the walk cannot take a second step
  have hstop : ∀ b, ¬ (harborPackage.source []).PointsTo a b := by
    intro b hb
    have hnone := hone k (Source.mem_ids_of_pointsTo ha)
    rw [show (harborPackage.source []).pointee k = some a from ha, Option.bind_some,
      show (harborPackage.source []).pointee a = some b from hb] at hnone
    cases hnone
  rcases Relation.ReflTransGen.cases_head hak with rfl | ⟨b, hb, _⟩
  · exact hstop a ha
  · exact hstop b hb

/-- `Harbor` does not convert: the struct that implements its vessels leads to a kind without a
scalar. -/
theorem harbor_reaches_unconvertible :
    harborManifest.build = .ok harborPackage ∧
    (∀ k, ¬ Relation.TransGen (harborPackage.source []).PointsTo k k) ∧
    ∃ k, Graph.Reaches (harborPackage.source []).edges (.entry 23) k ∧
      (harborPackage.source []).Unconvertible k (.unsupportedScalar "complex128" "complex128") := by
  refine ⟨harbor_build, harbor_acyclic, ?_⟩
  obtain ⟨_, hfails⟩ := converts_iff_reaches harbor_build [] harbor_acyclic (.entry 23)
  rcases hrun : ((harborPackage.source []).convert (.entry 23)).outcome Pool.start with ⟨r, q⟩
  -- the conversion is run, and fails at the complex number
  have hroot : (match (((harborPackage.source []).convert (.entry 23)).outcome Pool.start).1 with
      | .error e => some e.root
      | .ok _ => none) = some (.unsupportedScalar "complex128" "complex128") := by
    decide +kernel
  rw [hrun] at hroot
  cases r with
  | ok t => cases hroot
  | error e => exact Option.some.inj hroot ▸ hfails e q hrun

end RpcSchema
