/-
  RpcSchema.Proofs.Conversion.History
  ───────────────────────────────────
  **WHAT CONVERTS AFTER CONVERSIONS THAT FAILED.**

  From the first pool a native converts exactly if it leads to nothing
  that stands in the way.  Later on a conversion does not look at all it
  leads to: what was finished inside a conversion that failed is answered
  from the cache, although it may refer to a native that was given up.

  Main statement: `convert_after_iff`.
-/
import RpcSchema.Conversion.Compile
import RpcSchema.Manifest.Build
import RpcSchema.Proofs.Conversion.Offence

namespace RpcSchema

namespace Source

open Conversion

variable {s : Source} {n m : NativeId} {p q r : Pool} {t x : EntryId} {c : CompileError}

/-! ## §1. Runs that succeed. -/

/-- **What a run converts asks for nothing that is left without an entry.** -/
theorem Converts.asked {ns met : List NativeId} {ids : List EntryId}
    (h : s.Converts ns p met ids q) : ∀ a ∈ met, ∀ b ∈ s.edges a,
      (∃ kind c, s.types.kind b = .basic kind ∧ kind.scalar? = some c) ∨ q.slot b ≠ none := by
  induction h with
  | nil p => exact fun a ha => absurd ha List.not_mem_nil
  | basic _ _ _ ih => exact ih
  | known _ _ _ ih => exact ih
  | pending _ _ _ ih => exact ih
  | @fresh n t ns p r r' inner parts met ids q _ hslot hparts ht hrest ihparts ihrest =>
    -- a slot that is set when the parts are converted stays set
    have hlater : ∀ b, r.slot b ≠ none → q.slot b ≠ none := by
      intro b hb
      have hfin : (r'.finish n t).slot b ≠ none := by
        by_cases hbn : b = n
        · rw [hbn, Pool.slot_finish_self]
          simp
        · rwa [Pool.slot_finish_of_ne hbn, ht.slot_eq]
      obtain ⟨slot, hs⟩ := Option.ne_none_iff_exists'.1 hfin
      rw [hrest.advances.slot_eq hs]
      simp
    intro a ha b hb
    rcases List.mem_append.1 ha with ha | ha
    · rcases List.mem_cons.1 ha with rfl | ha
      · -- a part of the native itself was converted, so it has a result or is under way
        obtain ⟨x, _, hx⟩ := exists_right_of_mem hparts.returned hb
        cases hx with
        | scalar hk hc _ => exact Or.inl ⟨_, _, hk, hc⟩
        | done _ hdone => exact Or.inr (hlater b (by simp [hdone]))
        | pending _ _ hpending => exact Or.inr (hlater b (by simp [hpending]))
      · exact (ihparts a ha b hb).imp_right (hlater b)
    · exact ihrest a ha b hb

/-- **A conversion that succeeds enters nothing that stands in its way.**  By induction on the way
there: what is entered is finished by the run. -/
theorem Converts.not_offends {met : List NativeId} (h : s.Converts [n] p met [t] q)
    (hp : s.Grounded p) (hended : ∀ n, p.slot n ≠ some .inProgress) (hend : s.PointersEnd n)
    (hm : s.Enters p n m) : ¬ s.Offends m c := by
  have hq : s.Grounded q := h.keeps s.stable_grounded (under_of_ended hended _) hp
  have hslots : ∀ k, Relation.ReflTransGen (fun a b => p.slot a = none ∧ s.Asks a b) n k →
      (∃ kind c, s.types.kind k = .basic kind ∧ kind.scalar? = some c) ∨ q.slot k ≠ none := by
    -- along the way every native is met, since it had no slot before
    intro k hpath
    induction hpath with
    | refl =>
      cases (List.forall₂_cons.1 h.returned).1 with
      | scalar hk hc _ => exact Or.inl ⟨_, _, hk, hc⟩
      | done _ hdone => exact Or.inr (by simp [hdone])
      | pending _ _ hpending => exact Or.inr (by simp [hpending])
    | @tail a b _ hab ih =>
      rcases ih with ⟨kind, _, hk, _⟩ | hslot
      · -- a basic kind asks for nothing
        have hnone : s.edges a = [] := by simp [edges, steps, hk]
        exact absurd hab.2 (by simp [Asks, hnone])
      · have hmet : a ∈ met := ((h.mem_met_iff a).1 hslot).resolve_left (not_not.2 hab.1)
        exact h.asked a hmet b hab.2
  -- a result of `m` would contradict the offence
  intro hoff
  rcases hslots m hm.1 with ⟨kind, sc, hk, hc⟩ | hslot
  · exact not_offends_of_scalar hk hc hoff
  · obtain ⟨slot, hs⟩ := Option.ne_none_iff_exists'.1 hslot
    cases slot with
    | inProgress => exact hended m (h.advances.inProgress_before hs)
    | done u => exact hq.not_offends (hend.reaches hm.reaches) hs hoff

/-! ## §2. Runs that fail. -/

/-- Pointers that come back only lead to pointers. -/
theorem endless_of_cycle (h : Relation.TransGen s.PointsTo n n) : s.Endless n := by
  have hone : ∀ a b c, s.PointsTo a b → s.PointsTo a c → b = c :=
    fun a b c hb hc => Option.some.inj (hb.symm.trans hc)
  intro m hm
  obtain ⟨k, hk, _⟩ := Relation.TransGen.head'_iff.1 (Graph.cycle_of_reaches hone h hm)
  exact ⟨k, hk⟩

/-- A native whose entry is a reference is referred to, points to a native with that entry, or
hands up a reference to a list or a map. -/
theorem Grounded.refers_or_next (hp : s.Grounded p) (hx : s.Stands p n x)
    (ht : p.entry x = .reference m) :
    n = m ∨ s.IsBox m ∨ ∃ k, s.PointsTo n k ∧ s.Stands p k x := by
  cases hx with
  | scalar _ _ hc =>
    rw [hc, hp.base.scalar] at ht
    cases ht
  | reference _ hxn => exact Or.inl (Entry.reference.inj (hxn.symm.trans ht))
  | done _ hslot =>
    -- a result that is a reference was taken over from a part
    cases hp.built n x hslot with
    | pointer hk hst => exact Or.inr (Or.inr ⟨_, pointsTo_iff.2 (Or.inl hk), hst⟩)
    | through hk hc hst =>
      rcases hk.pointer_or_box hc with hptr | hbox
      · exact Or.inr (Or.inr ⟨_, hptr, hst⟩)
      · -- a list or a map is referred to while it is in progress
        cases hst with
        | scalar hb _ _ => exact absurd ⟨_, hb⟩ hbox.not_isBasic
        | reference _ hxm => exact Or.inr (Or.inl (Entry.reference.inj (hxm.symm.trans ht) ▸ hbox))
        | done _ hslot' =>
          have hentry := hp.isContainerEntry_of_box hbox hslot'
          rw [ht] at hentry
          cases hentry
    | any _ _ hc =>
      rw [hc, hp.base.any] at ht
      cases ht
    | scalar _ _ _ hc =>
      rw [hc, hp.base.scalar] at ht
      cases ht
    | _ => simp_all

/-- The pointers of a native whose entry is a reference lead to the native referred to, unless
that is a list or a map. -/
theorem Grounded.pointsTo_of_reference (hp : s.Grounded p) (hend : ¬ s.Endless n)
    (hx : s.Stands p n x) (ht : p.entry x = .reference m) :
    Relation.ReflTransGen s.PointsTo n m ∨ s.IsBox m := by
  refine induction_of_not_endless (P := fun k => s.Stands p k x →
    Relation.ReflTransGen s.PointsTo k m ∨ s.IsBox m) (fun a ih hx => ?_) hend hx
  rcases hp.refers_or_next hx ht with rfl | hbox | ⟨k, hk, hst⟩
  · exact Or.inl .refl
  · exact Or.inr hbox
  · exact (ih k hk hst).imp_left fun hpath => .head hk hpath

/-- **What is refused stands in the way.**  A container that came out as a reference to its own
name would be a pointer that only leads to pointers. -/
theorem Refuses.offends {parts : List EntryId} (h : s.Refuses n r parts c) (hr : s.Grounded r)
    (hparts : List.Forall₂ (s.Stands r) (s.edges n) parts) (hend : s.PointersEnd n) :
    s.Offends n c := by
  cases h with
  | scalar hn he hc => exact .declared hn he hc
  | shape hn => exact .shape hn
  | @key key value x y hn hkey =>
    -- a native that makes a key would have been accepted
    refine .key hn fun hkt => ?_
    rw [edges_map hn] at hparts
    rw [hr.isKey_of_keyType hkt (List.forall₂_cons.1 hparts).1] at hkey
    cases hkey
  | @itself decl shape x hn hc hself =>
    rw [edges_container hn hc] at hparts
    have hx : s.Stands r decl.underlying x := (List.forall₂_cons.1 hparts).1
    have hedge : Graph.Reaches s.edges n decl.underlying := .single (by simp [edges_container hn hc])
    have hname : ¬ s.IsBox n := by simp [IsBox, hn.1]
    rcases hr.pointsTo_of_reference (hend _ hedge) hx hself with hpath | hbox
    · -- the shape leads back to the name, so it is a pointer
      rcases hn.pointer_or_box hc with hptr | hbox
      · exact absurd (endless_of_cycle (.head' hptr hpath)) (hend n .refl)
      · rcases Relation.ReflTransGen.cases_head hpath with heq | ⟨k, hk, _⟩
        · exact absurd (heq ▸ hbox) hname
        · rcases pointsTo_iff.1 hk with hk | ⟨decl', elem, hk, _⟩ <;>
            grind [IsBox, Declares]
    · exact absurd hbox hname

/-- **A conversion that fails enters what stands in its way.** -/
theorem Breaks.exists_offends {ns : List NativeId} (h : s.Breaks ns p c q) (hp : s.Grounded p)
    (hunder : s.Under p ns) (hend : ∀ n ∈ ns, s.PointersEnd n) :
    ∃ n ∈ ns, ∃ m, s.Enters p n m ∧ s.Offends m c := by
  induction h with
  | @scalar n kind ns p hn hc =>
    exact ⟨n, List.mem_cons_self, n, ⟨.refl, hp.basic n ⟨kind, hn⟩⟩, .basic hn hc⟩
  | @later n t ns p met r c q hfirst _ ih =>
    have hone : s.Under p [n] := by
      intro k hk m hm
      rw [List.mem_singleton.1 hm]
      exact hunder k hk n List.mem_cons_self
    have hr : s.Grounded r := hfirst.keeps s.stable_grounded hone hp
    obtain ⟨k, hk, m, hm, hoff⟩ := ih hr (hunder.tail.advance hfirst.advances)
      fun k hk => hend k (List.mem_cons_of_mem n hk)
    exact ⟨k, List.mem_cons_of_mem n hk, m, hm.of_advances hfirst.advances, hoff⟩
  -- the offence is met below the native that was begun
  | @part n ns p c r hb hslot _ ih =>
    have hends : s.PointersEnd n := hend n List.mem_cons_self
    obtain ⟨e, he, m, hm, hoff⟩ := ih (hp.begin hb hslot) hunder.begin fun e he => hends.edge he
    exact ⟨n, List.mem_cons_self, m, hm.of_part hslot he, hoff⟩
  -- the native itself offends, with all its parts converted
  | @refused n ns p inner parts r c hb hslot hparts hc =>
    have hr : s.Grounded r :=
      hparts.keeps s.stable_grounded hunder.begin (hp.begin hb hslot)
    refine ⟨n, List.mem_cons_self, n, ⟨.refl, hslot⟩, ?_⟩
    exact hc.offends hr (hparts.returned.imp fun _ _ h => h.stands) (hend n List.mem_cons_self)

/-- A conversion that fails leaves the native without a slot. -/
theorem Breaks.slot_eq_none (h : s.Breaks [n] p c q) (hp : s.Grounded p) : q.slot n = none := by
  cases h with
  | scalar hn _ => exact hp.basic n ⟨_, hn⟩
  | later _ hrest => cases hrest
  | part _ _ hparts => exact Pool.slot_abandon_of_inProgress hparts.advances.slot_begun
  | refused _ _ hparts _ => exact Pool.slot_abandon_of_inProgress hparts.advances.slot_begun

/-! ## §3. Histories. -/

/-- **When a native converts.** -/
theorem yields_iff_enters (hp : s.Grounded p) (hended : ∀ n, p.slot n ≠ some .inProgress)
    (hend : s.PointersEnd n) :
    (∃ t q, (s.convert n).Yields p t q) ↔ ∀ m c, s.Enters p n m → ¬ s.Offends m c := by
  constructor
  · rintro ⟨t, q, h⟩ m c hm
    obtain ⟨met, hrun⟩ := converts_of_convert h
    exact hrun.not_offends hp hended hend hm
  · intro hfree
    -- a conversion that does not succeed breaks at a native that offends
    refine (yields_or_failsWith (s.convert n) p).resolve_right ?_
    rintro ⟨c, q, h⟩
    obtain ⟨k, hk, m, hm, hoff⟩ := (breaks_of_convert h).exists_offends hp
      (under_of_ended hended _) fun k hk => List.mem_singleton.1 hk ▸ hend
    rw [List.mem_singleton.1 hk] at hm
    exact hfree m c hm hoff

/-- **What hides a native that stands in the way.**  Where the way to it leaves the natives that
are finished, a native is referred to that has no slot. -/
theorem Grounded.exists_dangling (hp : s.Grounded p) (hended : ∀ n, p.slot n ≠ some .inProgress)
    (hend : s.PointersEnd n) (hm : Graph.Reaches s.edges n m) (hoff : s.Offends m c)
    (hhidden : ¬ s.Enters p n m) :
    ∃ id k, p.entry id = .reference k ∧ p.slot k = none ∧ Graph.Reaches s.edges n k ∧
      Graph.Reaches s.edges k m := by
  have hslotm : p.slot m = none := by
    cases hs : p.slot m with
    | none => rfl
    | some slot =>
      cases slot with
      | inProgress => exact absurd hs (hended m)
      | done t => exact absurd hoff (hp.not_offends (hend.reaches hm) hs)
  -- back along the way, as long as it has no slots
  have hback : Relation.ReflTransGen (fun a b => p.slot a = none ∧ s.Asks a b) n m ∨
      ∃ a k, p.slot a ≠ none ∧ s.Asks a k ∧ Graph.Reaches s.edges n a ∧ p.slot k = none ∧
        Graph.Reaches s.edges k m := by
    clear hhidden hend
    induction hm using Relation.ReflTransGen.head_induction_on with
    | refl => exact Or.inl .refl
    | @head a b hab hbm ih =>
      rcases ih with hpath | ⟨a', k, ha', hk, hba', hslot, hkm⟩
      · by_cases ha : p.slot a = none
        · exact Or.inl (.head ⟨ha, hab⟩ hpath)
        · have hb : p.slot b = none := by
            rcases Relation.ReflTransGen.cases_head hpath with rfl | ⟨_, hb, _⟩
            · exact hslotm
            · exact hb.1
          exact Or.inr ⟨a, b, ha, hab, .refl, hb, hbm⟩
      · exact Or.inr ⟨a', k, ha', hk, .head hab hba', hslot, hkm⟩
  rcases hback with hpath | ⟨a, k, ha, hk, hna, hslot, hkm⟩
  · exact absurd ⟨hpath, hslotm⟩ hhidden
  · -- the last native with a slot is finished over a part that has none
    obtain ⟨slot, hs⟩ := Option.ne_none_iff_exists'.1 ha
    cases slot with
    | inProgress => exact absurd hs (hended a)
    | done t =>
      obtain ⟨x, hx⟩ := (hp.built a t hs).stands_part hk
      cases hx with
      | scalar hb hc _ =>
        -- a basic kind that has a scalar leads nowhere else
        have hnone : s.edges k = [] := by simp [edges, steps, hb]
        rcases Relation.ReflTransGen.cases_head hkm with rfl | ⟨b, hkb, _⟩
        · exact absurd hoff (not_offends_of_scalar hb hc)
        · rw [hnone] at hkb
          exact absurd hkb List.not_mem_nil
      | done _ hdone =>
        rw [hslot] at hdone
        cases hdone
      | reference _ hx => exact ⟨x, k, hx, hslot, hna.tail hk, hkm⟩

/-- After conversions that all succeeded there is no reference to a native without a slot. -/
theorem live_poolAfter {history : List NativeId} {ts : List EntryId}
    (h : (history.mapM s.convert).Yields Pool.start ts q) {id : EntryId}
    (hid : (s.poolAfter history).entry id = .reference m) :
    (s.poolAfter history).slot m ≠ none := by
  unfold poolAfter at hid ⊢
  rw [after_eq_of_yields h] at hid ⊢
  obtain ⟨met, hrun⟩ := converts_of_yields s.budget _ _ _ _ h
  exact (hrun.sound sound_start).live id m hid

/-- **What a history of conversions changes.**

After any conversions, whether they succeeded or failed, a native converts exactly if nothing that
it enters stands in its way, and on the first pool exactly if nothing that it leads to does.  So
what converts on the first pool converts later.  What converts later only is hidden behind a
finished native: it leads to a native that was given up, that an entry of the pool refers to, and
that leads to what stands in the way.  That needs a conversion that failed; a conversion that fails
leaves no slot to its own native. -/
theorem convert_after_iff (history : List NativeId) (n : NativeId) (hend : s.PointersEnd n) :
    ((∃ t q, (s.convert n).Yields (s.poolAfter history) t q) ↔
      ∀ m c, s.Enters (s.poolAfter history) n m → ¬ s.Offends m c) ∧
    ((∃ t q, (s.convert n).Yields Pool.start t q) ↔
      ∀ m c, Graph.Reaches s.edges n m → ¬ s.Offends m c) ∧
    ((∃ t q, (s.convert n).Yields Pool.start t q) →
      ∃ t q, (s.convert n).Yields (s.poolAfter history) t q) ∧
    ((∃ t q, (s.convert n).Yields (s.poolAfter history) t q) →
      (∃ t q, (s.convert n).Yields Pool.start t q) ∨
        ∃ id k m c, (s.poolAfter history).entry id = .reference k ∧
          (s.poolAfter history).slot k = none ∧
          Graph.Reaches s.edges n k ∧ Graph.Reaches s.edges k m ∧ s.Offends m c) ∧
    ((∃ ts q, (history.mapM s.convert).Yields Pool.start ts q) →
      ((∃ t q, (s.convert n).Yields (s.poolAfter history) t q) ↔
        ∃ t q, (s.convert n).Yields Pool.start t q)) ∧
    ∀ c q, (s.convert n).FailsWith (s.poolAfter history) c q →
      q.slot n = none := by
  have hp : s.Grounded (s.poolAfter history) := s.grounded_poolAfter history
  have hended := s.ended_poolAfter history
  have hlater := yields_iff_enters hp hended hend
  have hfirst : (∃ t q, (s.convert n).Yields Pool.start t q) ↔
      ∀ m c, Graph.Reaches s.edges n m → ¬ s.Offends m c := by
    rw [yields_iff_enters grounded_start (s.ended_after []) hend]
    simp only [enters_start]
  have hkeep : (∃ t q, (s.convert n).Yields Pool.start t q) →
      ∃ t q, (s.convert n).Yields (s.poolAfter history) t q :=
    fun h => hlater.2 fun m c hm => hfirst.1 h m c hm.reaches
  have hhidden : (∃ t q, (s.convert n).Yields (s.poolAfter history) t q) →
      (∃ t q, (s.convert n).Yields Pool.start t q) ∨
        ∃ id k m c, (s.poolAfter history).entry id = .reference k ∧
          (s.poolAfter history).slot k = none ∧
          Graph.Reaches s.edges n k ∧ Graph.Reaches s.edges k m ∧ s.Offends m c := by
    intro h
    by_cases hfree : ∀ m c, Graph.Reaches s.edges n m → ¬ s.Offends m c
    · exact Or.inl (hfirst.2 hfree)
    · push Not at hfree
      obtain ⟨m, c, hm, hoff⟩ := hfree
      obtain ⟨id, k, hid, hk, hnk, hkm⟩ := hp.exists_dangling hended hend hm hoff
        fun henters => hlater.1 h m c henters hoff
      exact Or.inr ⟨id, k, m, c, hid, hk, hnk, hkm, hoff⟩
  refine ⟨hlater, hfirst, hkeep, hhidden, ?_, fun c q h => ?_⟩
  · -- where all conversions succeeded no reference dangles
    rintro ⟨ts, q, hall⟩
    refine ⟨fun h => (hhidden h).resolve_right ?_, hkeep⟩
    rintro ⟨id, k, m, c, hid, hk, _⟩
    exact live_poolAfter hall hid hk
  · exact (breaks_of_convert h).slot_eq_none hp

end Source

/-! ## §4. A struct that a failure hides. -/

/-- `type A struct { B B; Bad complex128 }` and `type B struct { A A }`. -/
def pairManifest : Manifest where
  path := "example.com/pair"
  name := none
  types :=
    [⟨"A", .struct [⟨some "B", "B"⟩, ⟨some "Bad", "complex128"⟩], []⟩,
      ⟨"B", .struct [⟨some "A", "A"⟩], []⟩]
  constants := []

/-- The package of `pairManifest`. -/
def pairPackage : Package where
  path := "example.com/pair"
  name := "pair"
  types := ⟨Universe.predeclared.kinds ++
    #[.named ⟨"A", some "example.com/pair", .entry 23, []⟩,
      .named ⟨"B", some "example.com/pair", .entry 24, []⟩,
      .struct [⟨"B", .entry 22, false⟩, ⟨"Bad", .basic .complex128, false⟩],
      .struct [⟨"A", .entry 21, false⟩]]⟩
  declared := [("A", .entry 21), ("B", .entry 22)]
  constants := []

theorem pair_build : pairManifest.build = .ok pairPackage := by
  have hbuild : pairManifest.build.toOption = some pairPackage := by
    decide +kernel
  exact eq_ok_of_toOption hbuild

/-- After `A`, which fails, `B` converts. -/
theorem pair_converts_later : ∃ t q, ((pairPackage.source []).convert (.entry 22)).Yields
    ((pairPackage.source []).poolAfter [.entry 21]) t q :=
  ⟨.entry 10, _, Conversion.yields_iff_toOption.2 ⟨by decide +kernel, rfl⟩⟩

/-- On the first pool `B` fails. -/
theorem pair_fails_first : ¬ ∃ t q, ((pairPackage.source []).convert (.entry 22)).Yields
    Pool.start t q := by
  rintro ⟨t, q, h⟩
  have hnone : (((pairPackage.source []).convert (.entry 22)).outcome Pool.start).1.toOption
      = none := by
    decide +kernel
  rw [(Conversion.yields_iff_toOption.1 h).1] at hnone
  cases hnone

/-- No pointer is written in the package. -/
theorem pair_pointersEnd : (pairPackage.source []).PointersEnd (.entry 22) := by
  -- three natives are reached, and none of them is a pointer
  have hids : ∀ m, Graph.Reaches (pairPackage.source []).edges (.entry 22) m →
      m ∈ [NativeId.entry 21, .entry 22, .basic .complex128] := by
    intro m hm
    induction hm with
    | refl => decide
    | @tail a b _ hab ih =>
      have hall : ∀ a ∈ [NativeId.entry 21, .entry 22, .basic .complex128],
          ∀ b ∈ (pairPackage.source []).edges a,
            b ∈ [NativeId.entry 21, .entry 22, .basic .complex128] := by
        decide +kernel
      exact hall a ih b hab
  intro m hm hend
  obtain ⟨e, he⟩ := hend m .refl
  have hnone : ∀ a ∈ [NativeId.entry 21, .entry 22, .basic .complex128],
      (pairPackage.source []).pointee a = none := by
    decide +kernel
  rw [Source.PointsTo, hnone m (hids m hm)] at he
  cases he

/-- What hides the failure is a reference to `A`, which has no slot. -/
theorem convert_after_iff_pair : (pairPackage.source []).PointersEnd (.entry 22) ∧
    ∃ id k m c, ((pairPackage.source []).poolAfter [.entry 21]).entry id = .reference k ∧
      ((pairPackage.source []).poolAfter [.entry 21]).slot k = none ∧
      Graph.Reaches (pairPackage.source []).edges (.entry 22) k ∧
      Graph.Reaches (pairPackage.source []).edges k m ∧
      (pairPackage.source []).Offends m c := by
  obtain ⟨_, _, _, hhidden, _⟩ :=
    Source.convert_after_iff [.entry 21] (.entry 22) pair_pointersEnd
  exact ⟨pair_pointersEnd, (hhidden pair_converts_later).resolve_left pair_fails_first⟩

/-- Whether `B` converts depends on whether `A` was tried before. -/
theorem pair_depends_on_history : pairManifest.build = .ok pairPackage ∧
    (∃ t q, ((pairPackage.source []).convert (.entry 22)).Yields
      ((pairPackage.source []).poolAfter [.entry 21]) t q) ∧
    ¬ ∃ t q, ((pairPackage.source []).convert (.entry 22)).Yields Pool.start t q :=
  ⟨pair_build, pair_converts_later, pair_fails_first⟩

end RpcSchema
