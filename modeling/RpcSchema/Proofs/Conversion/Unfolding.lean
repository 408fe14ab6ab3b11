/-
  RpcSchema.Proofs.Conversion.Unfolding
  ─────────────────────────────────────
  **WHEN EVERY CYCLE OF CONTAINERS PASSES THROUGH A DEFINITION.**

  Labels, diagnostics and field types unfold lists, maps, optional values
  and references until they come to a definition.  They come to an end if
  no list or map unfolds to itself.

  The converter closes a ring of containers where it is entered, and only
  if the native it is entered at has a name.  `type Forest []Forest` is
  closed when `Forest` is converted first, and is not when `[]Forest` is.

  Main statements: `Converts.order_eq` (natives are met in depth-first
  order) and `containers_unfold_iff`.
-/
import RpcSchema.Conversion.Compile
import RpcSchema.Manifest.Build
import RpcSchema.Proofs.Conversion.Image
import RpcSchema.Proofs.Conversion.Ring

namespace RpcSchema

/-- One step of unfolding an entry; definitions are not unfolded. -/
def Pool.Unfolds (p : Pool) (a b : EntryId) : Prop :=
  (p.entry a).isDefinition = false ∧ b ∈ (p.entry a).parts ∨ p.Hop a b

namespace Source

variable {s : Source} {n m u : NativeId} {p q : Pool} {t x y z : EntryId}

/-! ## §1. The order in which natives are met. -/

/-- The test for a basic kind. -/
theorem isBasic_iff : (s.types.kind n).isBasic = true ↔ s.IsBasic n := by
  unfold IsBasic
  cases s.types.kind n with
  | basic kind => simp [NativeKind.isBasic]
  | _ => simp [NativeKind.isBasic]

/-- The natives seen are those that have a slot, and some basic kinds. -/
def Tracks (s : Source) (p : Pool) (seen : List NativeId) : Prop :=
  ∀ n, ¬ s.IsBasic n → (n ∈ seen ↔ p.slot n ≠ none)

/-- The natives of a list that have a slot of their own. -/
def slotted (s : Source) (l : List NativeId) : List NativeId :=
  l.filter fun n => !(s.types.kind n).isBasic

theorem slotted_cons (hb : ¬ s.IsBasic n) (l : List NativeId) :
    s.slotted (n :: l) = n :: s.slotted l :=
  List.filter_cons_of_pos (by simpa using fun h => hb (isBasic_iff.1 h))

theorem edges_of_not_mem_ids (n : NativeId) (h : n ∉ s.types.ids) : s.edges n = [] := by
  simp [edges, steps, kind_of_not_mem_ids h]

/-- To begin a native is to have seen it. -/
theorem Tracks.begin {seen : List NativeId} (h : s.Tracks p seen) :
    s.Tracks (p.begin n) (n :: seen) := by
  intro m hm
  have hnone := Pool.slot_begin_eq_none_iff (p := p) (n := n) (m := m)
  rw [List.mem_cons, h m hm]
  tauto

/-- To finish a native gives no other one a slot. -/
theorem Tracks.finish {r r' : Pool} {parts : List EntryId} {seen : List NativeId}
    (h : s.Tracks r seen) (hin : r.slot n = some .inProgress) (ht : s.Assembles n r parts t r') :
    s.Tracks (r'.finish n t) seen := by
  intro m hm
  rw [h m hm]
  by_cases hmn : m = n
  · rw [hmn, hin, Pool.slot_finish_self]
    simp
  · rw [Pool.slot_finish_of_ne hmn, ht.slot_eq]

/-- **A run meets natives in the order of the depth-first search along `edges`.**  By induction on
the run; the search goes on with what is still pending when the run is over. -/
theorem Converts.search_eq {ns met : List NativeId} {ids : List EntryId}
    (h : s.Converts ns p met ids q) : ∀ rest seen, s.Tracks p seen →
      ∃ seen', s.Tracks q seen' ∧
        s.slotted (Graph.search s.edges s.types.ids (ns ++ rest) seen)
          = met ++ s.slotted (Graph.search s.edges s.types.ids rest seen') := by
  induction h with
  | nil p => exact fun rest seen hseen => ⟨seen, hseen, rfl⟩
  | @basic n kind c ns p met ids q hn _ _ ih =>
    intro rest seen hseen
    by_cases hmem : n ∈ seen
    · rw [List.cons_append, Graph.search_cons_of_mem hmem]
      exact ih rest seen hseen
    · -- the search visits it, but it leads nowhere and is left out of the order
      have hseen' : s.Tracks p (n :: seen) := by
        intro m hm
        have hmn : m ≠ n := fun h => hm ⟨kind, h ▸ hn⟩
        rw [List.mem_cons, ← hseen m hm]
        simp [hmn]
      obtain ⟨seen₁, htracks, heq⟩ := ih rest (n :: seen) hseen'
      refine ⟨seen₁, htracks, ?_⟩
      have hedges : s.edges n = [] := by simp [edges, steps, hn]
      rw [List.cons_append, Graph.search_cons_of_not_mem edges_of_not_mem_ids hmem, hedges,
        ← heq]
      simp [slotted, hn, NativeKind.isBasic]
  | @known n t ns p met ids q hb hslot _ ih =>
    intro rest seen hseen
    have hmem : n ∈ seen := (hseen n hb).2 (by simp [hslot])
    rw [List.cons_append, Graph.search_cons_of_mem hmem]
    exact ih rest seen hseen
  | @pending n ns p met ids q hb hslot _ ih =>
    intro rest seen hseen
    have hmem : n ∈ seen := (hseen n hb).2 (by simp [hslot])
    rw [List.cons_append, Graph.search_cons_of_mem hmem]
    refine ih rest seen fun m hm => ?_
    rw [Pool.slot_intern]
    exact hseen m hm
  | @fresh n t ns p r r' inner parts met ids q hb hslot hparts ht _ ihparts ihrest =>
    intro rest seen hseen
    -- the search takes the edges of `n` first, then what was pending
    have hmem : n ∉ seen := fun h => (hseen n hb).1 h hslot
    obtain ⟨seen₁, htracks₁, heq₁⟩ := ihparts (ns ++ rest) (n :: seen) hseen.begin
    have hin : r.slot n = some .inProgress := hparts.advances.slot_begun
    have hfinish : s.Tracks (r'.finish n t) seen₁ := htracks₁.finish hin ht
    obtain ⟨seen₂, htracks₂, heq₂⟩ := ihrest rest seen₁ hfinish
    refine ⟨seen₂, htracks₂, ?_⟩
    rw [List.cons_append, Graph.search_cons_of_not_mem edges_of_not_mem_ids hmem,
      slotted_cons hb, heq₁, heq₂, List.cons_append, List.cons_append, List.append_assoc]

/-- **A first run meets the natives with slots in depth-first order.** -/
theorem Converts.order_eq {ns met : List NativeId} {ids : List EntryId}
    (h : s.Converts ns Pool.start met ids q) :
    s.slotted (Graph.order s.edges s.types.ids ns) = met := by
  have hstart : s.Tracks Pool.start [] := fun n _ => by
    simp [show Pool.start.slot n = none from rfl]
  obtain ⟨seen', _, heq⟩ := h.search_eq [] [] hstart
  rw [List.append_nil, Graph.search_nil] at heq
  rw [Graph.order_eq_search, heq]
  simp [slotted]

/-! ## §2. What a ring unfolds to. -/

variable (s)

/-- Conversions of `ids`, one after the other, meet `c` first of the ring of `n`. -/
def EntersAt (ids : List NativeId) (n c : NativeId) : Prop :=
  s.InRing n c ∧ ∃ before after,
    Graph.order s.edges s.types.ids ids = before ++ c :: after ∧ ∀ m ∈ before, ¬ s.InRing n m

variable {s}

/-- What is met first of a ring is met before every other member. -/
theorem Converts.met_of_entersAt {ns met : List NativeId} {ids : List EntryId} {c : NativeId}
    (h : s.Converts ns Pool.start met ids q) (hn : s.OnRing n) (hc : s.EntersAt ns n c) :
    ∃ l l', met = l ++ c :: l' ∧ ∀ m ∈ l, ¬ s.InRing n m := by
  obtain ⟨hnc, before, after, horder, hbefore⟩ := hc
  refine ⟨s.slotted before, s.slotted after, ?_, fun m hm => ?_⟩
  · rw [← h.order_eq, horder, slotted, List.filter_append]
    congr 1
    exact slotted_cons (hn.member hnc).not_isBasic after
  · exact hbefore m (List.mem_of_mem_filter hm)

theorem unfolds_of_leads (h : p.Leads x y) : Relation.ReflTransGen p.Unfolds x y :=
  Relation.ReflTransGen.mono (fun _ _ hhop => Or.inr hhop) _ _ h

/-- A container is no definition. -/
theorem isDefinition_of_container (h : Pool.isContainerEntry (p.entry x) = true) :
    (p.entry x).isDefinition = false := by
  cases he : p.entry x with
  | definition d =>
    rw [he] at h
    cases h
  | _ => rfl

/-- **The result of a native that is not closed unfolds to the result of what it holds.**  A list
or a map takes a step. -/
theorem Settled.unfolds_held (hp : s.Settled p) (hu : s.Holds m u) (hb : ¬ s.IsBasic u)
    (ht : p.slot m = some (.done t))
    (hpass : (∃ decl, s.types.kind m = .named decl) → Passes s p m) :
    ∃ w, p.slot u = some (.done w) ∧ Relation.ReflTransGen p.Unfolds t w ∧
      (s.IsBox m → Pool.isContainerEntry (p.entry t) = true ∧
        Relation.TransGen p.Unfolds t w) := by
  have hheld : (∃ decl, s.types.kind m = .named decl) → s.Stands p u t := by
    intro hname
    obtain ⟨t', ht', hst⟩ := hpass hname
    rw [ht] at ht'
    cases ht'
    exact hst u hu
  -- taken over as it is, or put in a list or a map
  rcases (hp.built m t ht).stands_or_part hu hheld with ⟨hbox, hst⟩ | ⟨hc, z, hz, hst⟩
  · obtain ⟨w, hw, htw⟩ := hp.exists_result hb hst
    exact ⟨w, hw, unfolds_of_leads htw, fun h => absurd h hbox⟩
  · obtain ⟨w, hw, hzw⟩ := hp.exists_result hb hst
    have hstep : p.Unfolds t z := Or.inl ⟨isDefinition_of_container hc, hz⟩
    have htw : Relation.TransGen p.Unfolds t w := .head' hstep (unfolds_of_leads hzw)
    exact ⟨w, hw, htw.to_reflTransGen, fun _ => ⟨hc, htw⟩⟩

/-- Around a ring that nothing closes, results unfold to results.  By induction on the way. -/
theorem Settled.unfolds_around (hp : s.Settled p) (hn : s.OnRing n)
    (hpass : ∀ m, s.InRing n m → p.slot m ≠ none → (∃ decl, s.types.kind m = .named decl) →
      Passes s p m)
    (ht : p.slot n = some (.done t)) (hm : s.InRing n m) :
    ∃ x, p.slot m = some (.done x) ∧ Relation.ReflTransGen p.Unfolds t x := by
  -- around the ring, from one type that is held to the next
  induction hm with
  | refl => exact ⟨t, ht, .refl⟩
  | @tail a b hna hab ih =>
    obtain ⟨x, hx, htx⟩ := ih
    obtain ⟨y, hy, hxy, _⟩ := hp.unfolds_held hab (hn.member (hna.tail hab)).not_isBasic hx
      (hpass a hna (by simp [hx]))
    exact ⟨y, hy, htx.trans hxy⟩

/-- **A list or a map on a ring that nothing closes unfolds to itself.** -/
theorem Settled.unfolds_ring (hp : s.Settled p) (hbox : s.IsBox n) (hn : s.OnRing n)
    (hpass : ∀ m, s.InRing n m → p.slot m ≠ none → (∃ decl, s.types.kind m = .named decl) →
      Passes s p m)
    (ht : p.slot n = some (.done t)) :
    Pool.isContainerEntry (p.entry t) = true ∧ Relation.TransGen p.Unfolds t t := by
  obtain ⟨u, hu, hun⟩ := hn.exists_held
  have hring : s.OnRing u := hn.member (.single hu)
  -- the first step leaves the container, the others lead around the ring
  obtain ⟨w, hw, _, hstep⟩ :=
    hp.unfolds_held hu hring.not_isBasic ht (hpass n .refl (by simp [ht]))
  obtain ⟨hc, htw⟩ := hstep hbox
  obtain ⟨x, hx, hwx⟩ := hp.unfolds_around hring (fun m hm => hpass m (.head hu hm)) hw hun
  rw [ht] at hx
  cases hx
  exact ⟨hc, htw.trans_left hwx⟩

/-- A ring that is entered at a native without a name has no member that is closed. -/
theorem Converts.passes_of_entersAt {ns met : List NativeId} {ids : List EntryId}
    {c : NativeId} (h : s.Converts ns Pool.start met ids p) (hn : s.OnRing n)
    (hc : s.EntersAt ns n c) (hname : ¬ ∃ decl, s.types.kind c = .named decl) (hm : s.InRing n m)
    (hslot : p.slot m ≠ none) (hmname : ∃ decl, s.types.kind m = .named decl) :
    Passes s p m := by
  obtain ⟨l, l', rfl, hl⟩ := h.met_of_entersAt hn hc
  have hmet : m ∈ l ++ c :: l' := ((h.mem_met_iff m).1 hslot).resolve_left (fun hs => hs rfl)
  have hmc : m ≠ c := by
    rintro rfl
    exact hname hmname
  -- it is met behind `c`, so its ring was touched before
  have hlate : m ∈ l' := by
    rcases List.mem_append.1 hmet with hin | hin
    · exact absurd hm (hl m hin)
    · exact (List.mem_cons.1 hin).resolve_left hmc
  obtain ⟨a, b, rfl⟩ := List.append_of_mem hlate
  have hmring : s.OnRing m := hn.member hm
  refine (h.rings sound_start (l ++ c :: a) m b (by simp) hmring hmname).2 fun hfree => ?_
  exact (hfree c ((hn.inRing_symm hm).trans hc.1)).2 (by simp)

/-! ## §3. What unfolds to itself. -/

/-- A definition is not unfolded, and neither is what has no parts. -/
theorem not_unfolds (hr : (p.entry x).isReference = false)
    (h : (p.entry x).isDefinition = true ∨ (p.entry x).parts = []) : ¬ p.Unfolds x y := by
  rintro (⟨hd, hy⟩ | ⟨n, hn, _⟩)
  · rcases h with hd' | hparts
    · rw [hd] at hd'
      cases hd'
    · rw [hparts] at hy
      exact absurd hy List.not_mem_nil
  · rw [hn] at hr
    cases hr

/-- A reference unfolds to the result of its native. -/
theorem slot_of_unfolds (hx : p.entry x = .reference n) (h : p.Unfolds x y) :
    p.slot n = some (.done y) := by
  rcases h with ⟨_, hy⟩ | ⟨m, hm, hs⟩
  · rw [hx] at hy
    exact absurd hy List.not_mem_nil
  · obtain rfl := Entry.reference.inj (hx.symm.trans hm)
    exact hs

/-- A key unfolds to an entry that unfolds no further. -/
theorem not_unfolds_of_leads (h : p.Leads x y) (hkey : isKey (p.entry y) = true) {e : EntryId}
    (he : Relation.TransGen p.Unfolds e e) : ¬ Relation.ReflTransGen p.Unfolds x e := by
  induction h using Relation.ReflTransGen.head_induction_on with
  | refl =>
    intro hye
    obtain ⟨b, hyb, _⟩ := Relation.TransGen.head'_iff.1 (Relation.TransGen.trans_right hye he)
    cases hy : p.entry y with
    | scalar c => exact not_unfolds (by rw [hy]; rfl) (Or.inr (by rw [hy]; rfl)) hyb
    | definition d => exact not_unfolds (by rw [hy]; rfl) (Or.inl (by rw [hy]; rfl)) hyb
    | _ =>
      rw [hy] at hkey
      cases hkey
  | @head a b hab _ ih =>
    -- a reference unfolds to where it leads, and to nothing else
    intro hae
    obtain ⟨c, hac, hce⟩ := Relation.TransGen.head'_iff.1 (Relation.TransGen.trans_right hae he)
    obtain ⟨n, ha, hs⟩ := hab
    have hc := slot_of_unfolds ha hac
    rw [hs] at hc
    cases hc
    exact ih hce

/-- The result of the native unfolds to `e`. -/
def Turns (p : Pool) (e : EntryId) (n : NativeId) : Prop :=
  ∃ t, p.slot n = some (.done t) ∧ Relation.TransGen p.Unfolds t e

variable {e : EntryId}

/-- What stands for a native and unfolds to an entry on a cycle shows that the native turns. -/
theorem Sound.turns_of_stands (hp : s.Sound p) (he : Relation.TransGen p.Unfolds e e)
    (hx : s.Stands p n x) (hxe : Relation.ReflTransGen p.Unfolds x e) : Turns p e n := by
  -- the cycle is a step away at least, and a scalar takes none
  have hcycle := Relation.TransGen.trans_right hxe he
  obtain ⟨b, hxb, hbe⟩ := Relation.TransGen.head'_iff.1 hcycle
  cases hx with
  | @scalar kind c _ _ hx =>
    have hentry : p.entry x = .scalar c := hx ▸ hp.base.scalar c
    exact absurd hxb (not_unfolds (by rw [hentry]; rfl) (Or.inr (by rw [hentry]; rfl)))
  | done _ hslot => exact ⟨x, hslot, hcycle⟩
  | reference _ hxn => exact ⟨b, slot_of_unfolds hxn hxb, .trans_right hbe he⟩

/-- **What unfolds to a cycle holds what unfolds to it.**  A key leads to no cycle, and nothing
leads on from a definition. -/
theorem Sound.turns_held (hp : s.Sound p) (he : Relation.TransGen p.Unfolds e e)
    (h : Turns p e n) : ∃ u, s.Holds n u ∧ Turns p e u := by
  obtain ⟨t, ht, hte⟩ := h
  obtain ⟨b, htb, hbe⟩ := Relation.TransGen.head'_iff.1 hte
  -- what unfolds no further
  have hend : ∀ {x f}, p.entry x = f → f.isReference = false →
      (f.isDefinition = true ∨ f.parts = []) → ¬ p.Unfolds x b := by
    rintro x _ rfl hr hstop
    exact not_unfolds hr hstop
  -- the parts of an entry
  have hpart : ∀ f, p.entry t = f → f.isReference = false → b ∈ f.parts := by
    rintro _ rfl hr
    rcases htb with ⟨_, hb⟩ | ⟨n, hn, _⟩
    · exact hb
    · rw [hn] at hr
      cases hr
  cases hp.built n t ht with
  | pointer hn hst =>
    exact ⟨_, holds_iff.2 (Or.inl hn), hp.turns_of_stands he hst hte.to_reflTransGen⟩
  | slice hn hentry hst =>
    obtain rfl := List.mem_singleton.1 (hpart _ hentry rfl)
    exact ⟨_, holds_iff.2 (Or.inr (Or.inl hn)), hp.turns_of_stands he hst hbe⟩
  | map hn hentry hst hst' hkey =>
    rcases List.mem_cons.1 (hpart _ hentry rfl) with rfl | hb
    · obtain ⟨z, hz, hkz⟩ := hkey
      exact absurd hbe (not_unfolds_of_leads hz hkz he)
    · obtain rfl := List.mem_singleton.1 hb
      exact ⟨_, holds_iff.2 (Or.inr (Or.inr (Or.inl ⟨_, hn⟩))), hp.turns_of_stands he hst' hbe⟩
  | through hn hc hst => exact ⟨_, hn.holds hc, hp.turns_of_stands he hst hte.to_reflTransGen⟩
  | error _ hentry =>
    -- the text of an error unfolds no further
    obtain rfl := List.mem_singleton.1 (hpart _ hentry rfl)
    obtain ⟨c, hbc, _⟩ := Relation.TransGen.head'_iff.1 (Relation.TransGen.trans_right hbe he)
    have hscalar := hp.base.scalar .string
    exact absurd hbc (not_unfolds (by rw [hscalar]; rfl) (Or.inr (by rw [hscalar]; rfl)))
  | any _ _ hany => exact absurd htb (hend (hany ▸ hp.base.any) rfl (Or.inr rfl))
  | scalar _ _ _ hscalar =>
    exact absurd htb (hend (hscalar ▸ hp.base.scalar _) rfl (Or.inr rfl))
  | struct _ hentry _ => exact absurd htb (hend hentry rfl (Or.inl rfl))
  | interface _ _ hentry _ => exact absurd htb (hend hentry rfl (Or.inl rfl))
  | enum _ _ hentry => exact absurd htb (hend hentry rfl (Or.inl rfl))
  | lifted _ _ _ _ hentry => exact absurd htb (hend hentry rfl (Or.inl rfl))

/-- An endless pointer unfolds to a reference only. -/
theorem Settled.not_endless_of_turns (hp : s.Settled p) (h : Turns p e n)
    (hc : Pool.isContainerEntry (p.entry e) = true) : ¬ s.Endless n := by
  intro hend
  obtain ⟨t, ht, hte⟩ := h
  obtain ⟨m, hm, hendm⟩ := hp.endless n t ht hend
  -- from an endless native references lead to endless natives, and two of them share their result
  have hstay : ∀ y, Relation.ReflTransGen p.Unfolds t y → y = t := by
    intro y hy
    induction hy with
    | refl => rfl
    | @tail a b _ hab ih =>
      rw [ih] at hab
      have hb := slot_of_unfolds hm hab
      obtain ⟨k, hk, _⟩ := hp.endless m b hb hendm
      exact hp.flat n m t b ht hm hb (by rw [hk]; rfl)
  rw [hstay e hte.to_reflTransGen, hm] at hc
  cases hc

theorem PointsTo.holds (h : s.PointsTo n m) : s.Holds n m := by
  rcases pointsTo_iff.1 h with hn | ⟨decl, elem, hn, rfl⟩
  · exact holds_iff.2 (Or.inl hn)
  · exact hn.holds rfl

/-- Away from lists and maps what is held is pointed to. -/
theorem Holds.pointsTo (h : s.Holds n m) (hn : ¬ s.IsBox n) (hm : ¬ s.IsBox m) :
    s.PointsTo n m := by
  rcases holds_iff.1 h with hk | hk | ⟨key, hk⟩ | ⟨decl, shape, hk, hc, rfl⟩
  · exact pointsTo_iff.2 (Or.inl hk)
  · exact absurd (Or.inl ⟨m, hk⟩) hn
  · exact absurd (Or.inr ⟨key, m, hk⟩) hn
  · -- a pointer is the only container that is no box
    cases shape with
    | pointer elem => exact pointsTo_iff.2 (Or.inr ⟨decl, elem, hk, rfl⟩)
    | slice elem => exact absurd (Or.inl ⟨elem, hk.2.2⟩) hm
    | map key value => exact absurd (Or.inr ⟨key, value, hk.2.2⟩) hm
    | _ => cases hc

/-- A ring without a list or a map is one of pointers. -/
theorem OnRing.exists_box_or_endless (hn : s.OnRing n) :
    (∃ m, s.InRing n m ∧ s.IsBox m) ∨ s.Endless n := by
  by_cases hbox : ∃ m, s.InRing n m ∧ s.IsBox m
  · exact Or.inl hbox
  · refine Or.inr fun m hm => ?_
    have hnm : s.InRing n m := Relation.ReflTransGen.mono (fun _ _ h => h.holds) _ _ hm
    obtain ⟨u, hu, _⟩ := (hn.member hnm).exists_held
    exact ⟨u, hu.pointsTo (fun h => hbox ⟨m, hnm, h⟩) fun h => hbox ⟨u, hnm.tail hu, h⟩⟩

theorem Holds.mem_ids (h : s.Holds n m) : n ∈ s.types.ids := by
  by_contra hno
  rcases holds_iff.1 h with hn | hn | ⟨key, hn⟩ | ⟨decl, shape, ⟨hn, _⟩, _⟩ <;>
    simp [kind_of_not_mem_ids hno] at hn

/-- **A list or a map that unfolds to itself is on a ring, or holds one, with a list or a map on
it.** -/
theorem Settled.exists_ring (hp : s.Settled p) (hc : Pool.isContainerEntry (p.entry e) = true)
    (he : Relation.TransGen p.Unfolds e e) :
    ∃ n, s.IsBox n ∧ s.OnRing n ∧ ∀ m, s.InRing n m → Turns p e m := by
  -- a list or a map is the result of one
  obtain ⟨k, hk⟩ : ∃ k, p.slot k = some (.done e) := by
    cases hentry : p.entry e with
    | array x =>
      obtain ⟨k, _, _, hk⟩ := hp.list e x hentry
      exact ⟨k, hk⟩
    | map x y =>
      obtain ⟨k, _, _, _, hk⟩ := hp.table e x y hentry
      exact ⟨k, hk⟩
    | _ =>
      rw [hentry] at hc
      cases hc
  have hmem : ∀ n, Turns p e n → n ∈ s.types.ids := by
    intro n hn
    obtain ⟨u, hu, _⟩ := hp.turns_held he hn
    exact hu.mem_ids
  -- what it holds unfolds to it again, and so on
  obtain ⟨c, hturns, _, hring⟩ := Graph.exists_cycle hmem (fun n hn => hp.turns_held he hn)
    ⟨e, hk, he⟩ [] (fun _ h => absurd h List.not_mem_nil)
  have hall : ∀ m, s.InRing c m → Turns p e m := by
    intro m hm
    induction hm with
    | refl => exact hturns
    | tail _ hab ih =>
      obtain ⟨u, hu, hturn⟩ := hp.turns_held he ih
      rwa [Holds.unique _ _ _ hab hu]
  -- a ring of pointers alone would be endless, and nothing on it turns to a container
  obtain ⟨n, hcn, hbox⟩ := (OnRing.exists_box_or_endless hring).resolve_right
    (hp.not_endless_of_turns hturns hc)
  exact ⟨n, hbox, OnRing.member hring hcn, fun m hm => hall m (hcn.trans hm)⟩

/-! ## §4. Where rings are entered. -/

/-- A list with an element of a kind has a first one. -/
theorem exists_first {α : Type} {P : α → Prop} {l : List α} {a : α} (ha : a ∈ l) (hP : P a) :
    ∃ before c after, l = before ++ c :: after ∧ P c ∧ ∀ b ∈ before, ¬ P b := by
  classical
  have hsome : (l.find? (fun b => decide (P b))).isSome = true :=
    List.find?_isSome.2 ⟨a, ha, decide_eq_true hP⟩
  obtain ⟨c, hc⟩ := Option.isSome_iff_exists.1 hsome
  obtain ⟨hPc, before, after, rfl, hbefore⟩ := List.find?_eq_some_iff_append.1 hc
  exact ⟨before, c, after, rfl, of_decide_eq_true hPc, fun b hb => by simpa using hbefore b hb⟩

/-- A ring with a finished member is entered. -/
theorem Converts.exists_entersAt {ns met : List NativeId} {ids : List EntryId}
    (h : s.Converts ns Pool.start met ids p) (hslot : p.slot n ≠ none) :
    ∃ c, s.EntersAt ns n c := by
  have hmet : n ∈ met := ((h.mem_met_iff n).1 hslot).resolve_left (fun hs => hs rfl)
  rw [← h.order_eq] at hmet
  obtain ⟨before, c, after, horder, hc, hbefore⟩ :=
    exists_first (List.mem_of_mem_filter hmet) (show s.InRing n n from .refl)
  exact ⟨c, hc, before, after, horder, hbefore⟩

/-- **When every cycle of containers passes through a definition.**

After conversions from the first pool no list and no map unfolds to itself exactly if every ring
with a list or a map on it that was entered was entered at a native with a name. -/
theorem containers_unfold_iff {ids : List NativeId} {ts : List EntryId}
    (h : (ids.mapM s.convert).Yields Pool.start ts p) :
    (∀ id, Pool.isContainerEntry (p.entry id) = true → ¬ Relation.TransGen p.Unfolds id id) ↔
      ∀ n c, s.IsBox n → s.OnRing n → s.EntersAt ids n c →
        ∃ decl, s.types.kind c = .named decl := by
  obtain ⟨met, hrun⟩ := converts_of_yields s.budget ids Pool.start ts p h
  have hp : s.Settled p := hrun.settled settled_start
  constructor
  · intro hfree n c hbox hn hc
    by_contra hname
    have hpass : ∀ m, s.InRing n m → p.slot m ≠ none →
        (∃ decl, s.types.kind m = .named decl) → Passes s p m :=
      fun m hm hslot hmname => hrun.passes_of_entersAt hn hc hname hm hslot hmname
    -- from where the ring was entered to the list or the map
    obtain ⟨l, l', hmet, _⟩ := hrun.met_of_entersAt hn hc
    obtain ⟨x, hx⟩ := hp.exists_done ((hrun.mem_met_iff c).2 (Or.inr (by simp [hmet])))
    obtain ⟨t, ht, _⟩ := hp.unfolds_around (hn.member hc.1)
      (fun m hm => hpass m (hc.1.trans hm)) hx (hn.inRing_symm hc.1)
    obtain ⟨hentry, hcycle⟩ := hp.unfolds_ring hbox hn hpass ht
    exact hfree t hentry hcycle
  · intro hnamed e hc he
    obtain ⟨n, hbox, hn, hturns⟩ := hp.exists_ring hc he
    obtain ⟨t, ht, _⟩ := hturns n .refl
    -- the native where the ring was entered has a name, so it was closed
    obtain ⟨c, hc⟩ := hrun.exists_entersAt (by simp [ht] : p.slot n ≠ none)
    obtain ⟨l, l', hmet, hl⟩ := hrun.met_of_entersAt hn hc
    have hclosed : Closes p c :=
      (hrun.rings sound_start l c l' hmet (hn.member hc.1) (hnamed n c hbox hn hc)).1
        fun m hm => ⟨rfl, fun hin => hl m hin (hc.1.trans hm)⟩
    -- a definition unfolds no further
    obtain ⟨d, t', hd, hentry⟩ := hclosed
    obtain ⟨w, hw, hwe⟩ := hturns c hc.1
    rw [hd] at hw
    cases hw
    obtain ⟨b, hb, _⟩ := Relation.TransGen.head'_iff.1 hwe
    exact not_unfolds (by rw [hentry]; rfl) (Or.inl (by rw [hentry]; rfl)) hb

end Source

/-! ## §5. A list of itself. -/

/-- `type Forest []Forest`. -/
def forestManifest : Manifest where
  path := "example.com/woods"
  name := none
  types := [⟨"Forest", .type "[]Forest", []⟩]
  constants := []

/-- The package of `forestManifest`. -/
def forestPackage : Package where
  path := "example.com/woods"
  name := "woods"
  types := ⟨Universe.predeclared.kinds ++
    #[.named ⟨"Forest", some "example.com/woods", .entry 22, []⟩, .slice (.entry 21)]⟩
  declared := [("Forest", .entry 21)]
  constants := []

/-- The pool after one of the natives is converted. -/
def forestPool (n : NativeId) : Pool :=
  (([n].mapM (forestPackage.source []).convert).outcome Pool.start).2

/-- Converted by its name first the type is closed by a message. -/
theorem containers_unfold_iff_forest :
    ([.entry 21].mapM (forestPackage.source []).convert).Yields Pool.start
        [.entry 11] (forestPool (.entry 21)) ∧
      ∀ id, Pool.isContainerEntry ((forestPool (.entry 21)).entry id) = true →
        ¬ Relation.TransGen (forestPool (.entry 21)).Unfolds id id := by
  have hrun : ([.entry 21].mapM (forestPackage.source []).convert).Yields Pool.start
      [.entry 11] (forestPool (.entry 21)) :=
    Conversion.yields_iff_toOption.2 ⟨by decide +kernel, rfl⟩
  refine ⟨hrun, (Source.containers_unfold_iff hrun).2 fun n c hbox hn hc => ?_⟩
  obtain ⟨hnc, before, after, horder, hbefore⟩ := hc
  have hlist : Graph.order (forestPackage.source []).edges (forestPackage.source []).types.ids
      [.entry 21] = [.entry 21, .entry 22] := by
    decide +kernel
  rw [hlist] at horder
  -- the name is met first, and is on the ring of every list there is
  cases before with
  | nil =>
    obtain ⟨rfl, _⟩ := List.cons.inj horder
    exact ⟨_, rfl⟩
  | cons a before =>
    obtain ⟨rfl, htail⟩ := List.cons.inj horder
    have hback : (forestPackage.source []).InRing c (.entry 21) := by
      cases before with
      | nil =>
        obtain ⟨rfl, _⟩ := List.cons.inj htail
        exact .single rfl
      | cons b before => simp at htail
    exact absurd (hnc.trans hback) (hbefore _ List.mem_cons_self)

/-- Converted by its shape first the type is a list that holds itself. -/
theorem forest_unfolds_to_itself :
    forestManifest.build = .ok forestPackage ∧
      ∃ t p, ([.entry 22].mapM (forestPackage.source []).convert).Yields Pool.start [t] p ∧
        Pool.isContainerEntry (p.entry t) = true ∧ Relation.TransGen p.Unfolds t t := by
  have hbuild : forestManifest.build.toOption = some forestPackage := by
    decide +kernel
  have hrun : ([.entry 22].mapM (forestPackage.source []).convert).Yields Pool.start
      [.entry 10] (forestPool (.entry 22)) :=
    Conversion.yields_iff_toOption.2 ⟨by decide +kernel, rfl⟩
  -- the list is one of references to the list
  have hlist : (forestPool (.entry 22)).entry (.entry 10) = .array (.entry 9) := by
    decide +kernel
  have hreference : (forestPool (.entry 22)).Hop (.entry 9) (.entry 10) :=
    ⟨.entry 22, by decide +kernel, by decide +kernel⟩
  refine ⟨eq_ok_of_toOption hbuild, .entry 10, forestPool (.entry 22), hrun, ?_, ?_⟩
  · rw [hlist]
    rfl
  · have hstep : (forestPool (.entry 22)).Unfolds (.entry 10) (.entry 9) := by
      refine Or.inl ⟨?_, ?_⟩ <;> rw [hlist]
      · rfl
      · exact List.mem_cons_self
    exact .tail (.single hstep) (Or.inr hreference)

end RpcSchema
