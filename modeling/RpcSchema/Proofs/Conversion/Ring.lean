/-
  RpcSchema.Proofs.Conversion.Ring
  ────────────────────────────────
  **WHERE A RING OF CONTAINERS IS CLOSED.**

  A pointer, a list, a map and a named container each hold one native (a
  map its values), so following what is held runs into a ring or ends.
  When a named member of a ring is finished, the converter asks whether
  its shape refers to that very name.  It does exactly if no native of the
  ring had a slot when the name was begun: otherwise the way around the
  ring ends at the native that had one, and only that one is referred to.

  Main statements: `refersTo_eq_false_of_met`, `refersTo_of_unmet` and
  `Converts.rings` — in a run a named member of a ring is closed by a
  message if it is the first of its ring that is met, and passes on the
  conversion of its shape if it is not.
-/
import RpcSchema.Pool.Wrapper
import RpcSchema.Proofs.Conversion.Invariant
import RpcSchema.Proofs.Graph.Cycle

namespace RpcSchema.Source

variable (s : Source)

/-! ## §1. Rings. -/

/-- The native that a pointer, a list, a map or a named container holds. -/
def held (n : NativeId) : Option NativeId :=
  match s.types.kind n with
  | .pointer elem | .slice elem => some elem
  | .map _ value => some value
  | .named decl =>
    if (s.types.kind decl.underlying).isContainer then some decl.underlying else none
  | _ => none

/-- A native holds another one as the last of its parts. -/
def Holds (n m : NativeId) : Prop :=
  s.held n = some m

/-- A native that holds itself, by way of others or not. -/
def OnRing (n : NativeId) : Prop :=
  Relation.TransGen s.Holds n n

/-- The natives that one comes to from `n`; if `n` is on a ring, the members of the ring. -/
def InRing (n m : NativeId) : Prop :=
  Relation.ReflTransGen s.Holds n m

/-- A list or a map. -/
def IsBox (n : NativeId) : Prop :=
  (∃ elem, s.types.kind n = .slice elem) ∨ ∃ key value, s.types.kind n = .map key value

variable {s} {n m u : NativeId}

theorem Holds.unique (a b c : NativeId) (hb : s.Holds a b) (hc : s.Holds a c) : b = c :=
  Option.some.inj (hb.symm.trans hc)

theorem OnRing.member (hn : s.OnRing n) (hm : s.InRing n m) : s.OnRing m :=
  (Graph.cycle_of_reaches Holds.unique hn hm).trans_left hm

theorem OnRing.inRing_symm (hn : s.OnRing n) (hm : s.InRing n m) : s.InRing m n :=
  (Graph.cycle_of_reaches Holds.unique hn hm).to_reflTransGen

theorem OnRing.exists_held (hn : s.OnRing n) : ∃ u, s.Holds n u ∧ s.InRing u n := by
  obtain ⟨u, hu, hun⟩ := Relation.TransGen.head'_iff.1 hn
  exact ⟨u, hu, hun⟩

/-- What is held: the element, the value of a map, or the shape behind a name. -/
theorem holds_iff :
    s.Holds n m ↔ s.types.kind n = .pointer m ∨ s.types.kind n = .slice m ∨
      (∃ key, s.types.kind n = .map key m) ∨
      ∃ decl shape, s.Declares n decl shape ∧ shape.isContainer = true ∧ decl.underlying = m := by
  unfold Holds held
  cases hn : s.types.kind n with
  | named decl =>
    -- the builtin error is an interface underneath, so no container
    have herr : (s.types.kind decl.underlying).isContainer = true → s.types.isError n = false := by
      intro hc
      simp only [Universe.isError, hn]
      cases hu : s.types.kind decl.underlying with
      | interface asked => simp [hu, NativeKind.isContainer] at hc
      | _ => simp
    simp only [reduceCtorEq, false_or, exists_false]
    constructor
    · intro h
      split at h
      · rename_i hc
        exact ⟨decl, _, ⟨hn, herr hc, rfl⟩, hc, Option.some.inj h⟩
      · cases h
    · rintro ⟨decl', shape, ⟨hn', _, rfl⟩, hc, rfl⟩
      obtain rfl := NativeKind.named.inj (hn.symm.trans hn')
      rw [if_pos hc]
  | _ => simp [Declares, hn]

theorem Holds.not_isBasic (h : s.Holds n m) : ¬ s.IsBasic n := by
  rintro ⟨kind, hk⟩
  rcases holds_iff.1 h with hn | hn | ⟨key, hn⟩ | ⟨decl, shape, ⟨hn, _⟩, _⟩ <;> simp [hk] at hn

theorem OnRing.not_isBasic (hn : s.OnRing n) : ¬ s.IsBasic n := by
  obtain ⟨u, hu, _⟩ := hn.exists_held
  exact hu.not_isBasic

theorem Declares.holds {decl : NamedType} {shape : NativeKind} (hn : s.Declares n decl shape)
    (hc : shape.isContainer = true) : s.Holds n decl.underlying :=
  holds_iff.2 (Or.inr (Or.inr (Or.inr ⟨decl, shape, hn, hc, rfl⟩)))

/-! ## §2. The ring was entered before. -/

variable {p q r r' : Pool} {w x y z : EntryId}

/-- An entry inside `y` is a reference to `n`. -/
def Mentions (r : Pool) (n : NativeId) (y : EntryId) : Prop :=
  ∃ e, Graph.Reaches (r.inside n) y e ∧ r.entry e = .reference n

theorem mentions_of_inside (hz : z ∈ r.inside n y) (h : Mentions r n z) : Mentions r n y := by
  obtain ⟨e, hze, he⟩ := h
  exact ⟨e, .head hz hze, he⟩

/-- An entry that is no reference to a native mentions it only inside. -/
theorem not_mentions_of_step (hy : r.entry y ≠ .reference n)
    (h : ∀ z ∈ r.inside n y, ¬ Mentions r n z) : ¬ Mentions r n y := by
  rintro ⟨e, hye, he⟩
  rcases Relation.ReflTransGen.cases_head hye with rfl | ⟨z, hz, hze⟩
  · exact hy he
  · exact h z hz ⟨e, hze, he⟩

/-- Inside a reference there is the result it stands for. -/
theorem inside_reference (hy : r.entry y = .reference m) (hz : z ∈ r.inside n y) :
    r.slot m = some (.done z) := by
  unfold Pool.inside at hz
  simp only [hy] at hz
  split at hz
  · exact absurd hz List.not_mem_nil
  · split at hz
    · rename_i t ht
      rw [List.mem_singleton.1 hz, ht]
    · exact absurd hz List.not_mem_nil

/-- An entry that was there before `n` was begun does not refer to `n`. -/
theorem not_mentions_of_has (hp : s.Sound p) (hslot : p.slot n = none)
    (ha : (p.begin n).Advances r) (hy : p.Has y) : ¬ Mentions r n y := by
  have hg : p.Grows r := (Pool.Grows.begin hslot).trans ha.toGrows
  -- inside an old entry there are only old ones
  have hstep : ∀ e z, p.Has e → z ∈ r.inside n e → p.Has z := by
    intro e z he hz
    have hentry := hg.entry_eq e he
    cases hpe : p.entry e with
    | optional of =>
      simp only [Pool.inside, hentry, hpe, List.mem_singleton] at hz
      rw [hz, hp.option e of hpe]
      exact Pool.has_of_entry_ne_any (by rw [hp.base.scalar]; simp)
    | array of =>
      simp only [Pool.inside, hentry, hpe, List.mem_singleton] at hz
      obtain ⟨k, elem, hk, hdone⟩ := hp.list e of hpe
      cases hp.built k e hdone with
      | slice _ ht hst =>
        obtain rfl := Entry.array.inj (ht.symm.trans hpe)
        exact hz ▸ hst.has hp.base hp.has
      | _ => grind [Declares, IsInterface, isError_of_kind_ne_named]
    | map key value =>
      simp only [Pool.inside, hentry, hpe, List.mem_cons, List.not_mem_nil, or_false] at hz
      obtain ⟨k, _, _, hk, hdone⟩ := hp.table e key value hpe
      cases hp.built k e hdone with
      | map _ ht hst hst' _ =>
        obtain ⟨rfl, rfl⟩ := Entry.map.inj (ht.symm.trans hpe)
        rcases hz with rfl | rfl
        · exact hst.has hp.base hp.has
        · exact hst'.has hp.base hp.has
      | _ => grind [Declares, IsInterface, isError_of_kind_ne_named]
    | reference k =>
      -- `k` had a slot then and still has it, so it was done
      have hdone := inside_reference (hentry.trans hpe) hz
      obtain ⟨slot, hk⟩ := Option.ne_none_iff_exists'.1 (hp.live e k hpe)
      have hkn : k ≠ n := fun h => by rw [h, hslot] at hk; cases hk
      have hrk := ha.slot_eq ((Pool.slot_begin_of_ne hkn).trans hk)
      rw [hrk] at hdone
      cases hdone
      exact hp.has k z hk
    | _ => simp [Pool.inside, hentry, hpe] at hz
  rintro ⟨e, he, hen⟩
  have hold : p.Has e := by
    clear hen
    induction he with
    | refl => exact hy
    | tail _ hz ih => exact hstep _ _ ih hz
  rw [hg.entry_eq e hold] at hen
  exact hp.live e n hen hslot

/-- A key leads to no native in progress. -/
theorem not_mentions_of_leads (hin : r.slot n = some .inProgress) (h : r.Leads y z)
    (hkey : isKey (r.entry z) = true) : ¬ Mentions r n y := by
  -- on the references in front of the key
  induction h using Relation.ReflTransGen.head_induction_on with
  | refl =>
    cases hz : r.entry z with
    | scalar c =>
      refine not_mentions_of_step (by simp [hz]) fun w hw => ?_
      simp [Pool.inside, hz] at hw
    | definition d =>
      refine not_mentions_of_step (by simp [hz]) fun w hw => ?_
      simp [Pool.inside, hz] at hw
    | _ =>
      rw [hz] at hkey
      cases hkey
  | @head a b hab _ ih =>
    obtain ⟨k, hak, hkb⟩ := hab
    refine not_mentions_of_step (fun h => ?_) fun w hw => ?_
    · -- a reference to `n` would be done, but `n` is under way
      obtain rfl := Entry.reference.inj (hak.symm.trans h)
      rw [hin] at hkb
      cases hkb
    · have hkw := inside_reference hak hw
      rw [hkb] at hkw
      cases hkw
      exact ih

/-- What stands for a native mentions `n` only if its result does. -/
theorem not_mentions_of_stands (hb : ¬ s.IsBasic m) (hmn : m ≠ n)
    (h : ∀ w, r.slot m = some (.done w) → ¬ Mentions r n w) (hy : s.Stands r m y) :
    ¬ Mentions r n y := by
  cases hy with
  | scalar hm _ _ => exact absurd ⟨_, hm⟩ hb
  | done _ hslot => exact h y hslot
  | reference _ hym =>
    refine not_mentions_of_step (fun hyn => ?_) fun z hz => h z (inside_reference hym hz)
    exact hmn (Entry.reference.inj (hym.symm.trans hyn))

/-- A result mentions `n` only if what the native holds does. -/
theorem not_mentions_of_built (hin : r.slot n = some .inProgress) (hu : s.Holds m u)
    (h : s.Built r m y) (hheld : ∀ z, s.Stands r u z → ¬ Mentions r n z) : ¬ Mentions r n y := by
  -- what is inside the entry stands for what is held, or is a key
  cases h with
  | pointer hm hst =>
    obtain rfl := Holds.unique _ _ _ hu (holds_iff.2 (Or.inl hm))
    exact hheld y hst
  | slice hm ht hst =>
    obtain rfl := Holds.unique _ _ _ hu (holds_iff.2 (Or.inr (Or.inl hm)))
    refine not_mentions_of_step (by simp [ht]) fun z hz => ?_
    simp only [Pool.inside, ht, List.mem_singleton] at hz
    exact hz ▸ hheld _ hst
  | map hm ht _ hst hkey =>
    obtain rfl := Holds.unique _ _ _ hu (holds_iff.2 (Or.inr (Or.inr (Or.inl ⟨_, hm⟩))))
    obtain ⟨k, hk, hkk⟩ := hkey
    refine not_mentions_of_step (by simp [ht]) fun z hz => ?_
    simp only [Pool.inside, ht, List.mem_cons, List.not_mem_nil, or_false] at hz
    rcases hz with rfl | rfl
    · exact not_mentions_of_leads hin hk hkk
    · exact hheld _ hst
  | through hm hc hst =>
    obtain rfl := Holds.unique _ _ _ hu (hm.holds hc)
    exact hheld y hst
  -- a message is not looked into
  | lifted _ _ _ _ ht =>
    refine not_mentions_of_step (by simp [ht]) fun z hz => ?_
    simp [Pool.inside, ht] at hz
  | _ => grind [holds_iff, Declares, IsInterface, NativeKind.isContainer, isError_of_kind_ne_named]

/-- **If a native of its ring had a slot when `n` was begun, its shape does not refer to `n`.**
By induction on the way around the ring to that native. -/
theorem refersTo_eq_false_of_met (hp : s.Sound p) (hslot : p.slot n = none)
    (ha : (p.begin n).Advances r) (hr : s.Sound r) (hn : s.OnRing n) (hm : s.InRing n m)
    (hmet : p.slot m ≠ none) (hu : s.Holds n u) (hx : s.Stands r u x) :
    r.refersTo x n = false := by
  have hin : r.slot n = some .inProgress := ha.slot_begun
  have hmn : m ≠ n := fun h => hmet (h ▸ hslot)
  -- around the ring, from where `n` comes up for the last time
  obtain ⟨c, hc, hpath⟩ := Graph.reaches_after hm hmn
  obtain rfl := Holds.unique _ _ _ hu hc
  have hnot : s.OnRing u → ∀ y, s.Stands r u y → ¬ Mentions r n y := by
    clear hx hc hu
    induction hpath using Relation.ReflTransGen.head_induction_on with
    | refl =>
      -- the native that had a slot, whose result is an old entry
      intro hring y hy
      refine not_mentions_of_stands hring.not_isBasic hmn (fun w hw => ?_) hy
      obtain ⟨slot, hs⟩ := Option.ne_none_iff_exists'.1 hmet
      rw [ha.slot_eq ((Pool.slot_begin_of_ne hmn).trans hs)] at hw
      cases hw
      exact not_mentions_of_has hp hslot ha (hp.has m w hs)
    | @head a b hab _ ih =>
      intro hring y hy
      refine not_mentions_of_stands hring.not_isBasic hab.2 (fun w hw => ?_) hy
      exact not_mentions_of_built hin hab.1 (hr.built a w hw) (ih (hring.member (.single hab.1)))
  cases href : r.refersTo x n with
  | false => rfl
  | true =>
    exact absurd (Pool.refersTo_iff.1 href) (hnot (hn.member (.single hu)) x hx)

/-! ## §3. The ring is entered now. -/

/-- The result of the native stands for what it holds or is a container over that: it is not
closed by a message of its own. -/
def Passes (s : Source) (p : Pool) (n : NativeId) : Prop :=
  ∃ t, p.slot n = some (.done t) ∧ ∀ u, s.Holds n u → s.Stands p u t

/-- The result of the native is a definition. -/
def Closes (p : Pool) (n : NativeId) : Prop :=
  ∃ t d, p.slot n = some (.done t) ∧ p.entry t = .definition d

theorem Passes.mono (hg : p.Grows q) (h : Passes s p n) : Passes s q n := by
  obtain ⟨t, ht, hst⟩ := h
  exact ⟨t, hg.done n t ht, fun u hu => (hst u hu).mono hg⟩

theorem Closes.mono (hg : p.Grows q) (h : Closes p n) : Closes q n := by
  obtain ⟨t, d, ht, hd⟩ := h
  exact ⟨t, d, hg.done n t ht, by rw [hg.entry_of_ne_any (by simp [hd]), hd]⟩

/-- Inside a container there are its parts. -/
theorem inside_of_container (hy : Pool.isContainerEntry (r.entry y) = true) (n : NativeId) :
    r.inside n y = (r.entry y).parts := by
  unfold Pool.inside
  cases he : r.entry y with
  | array of => rfl
  | map key value => rfl
  | _ =>
    rw [he] at hy
    cases hy

/-- The result of a native that is not closed stands for what the native holds, or is a container
over that. -/
theorem Built.stands_or_part (hu : s.Holds m u) (h : s.Built r m y)
    (hpass : (∃ decl, s.types.kind m = .named decl) → s.Stands r u y) :
    ¬ s.IsBox m ∧ s.Stands r u y ∨
      Pool.isContainerEntry (r.entry y) = true ∧ ∃ z ∈ (r.entry y).parts, s.Stands r u z := by
  cases h with
  | pointer hm hst =>
    obtain rfl := Holds.unique _ _ _ hu (holds_iff.2 (Or.inl hm))
    exact Or.inl ⟨by simp [IsBox, hm], hst⟩
  | slice hm ht hst =>
    obtain rfl := Holds.unique _ _ _ hu (holds_iff.2 (Or.inr (Or.inl hm)))
    exact Or.inr ⟨by rw [ht]; rfl, _, by simp [ht, Entry.parts], hst⟩
  | map hm ht _ hst _ =>
    obtain rfl := Holds.unique _ _ _ hu (holds_iff.2 (Or.inr (Or.inr (Or.inl ⟨_, hm⟩))))
    exact Or.inr ⟨by rw [ht]; rfl, _, by simp [ht, Entry.parts], hst⟩
  | through hm _ _ => exact Or.inl ⟨by simp [IsBox, hm.1], hpass ⟨_, hm.1⟩⟩
  | lifted hm _ _ _ _ => exact Or.inl ⟨by simp [IsBox, hm.1], hpass ⟨_, hm.1⟩⟩
  -- the other shapes hold nothing
  | _ => grind [holds_iff, Declares, IsInterface, NativeKind.isContainer, isError_of_kind_ne_named]

/-- A native that something stands for has a slot. -/
theorem Sound.slot_of_stands (hr : s.Sound r) (hb : ¬ s.IsBasic m) (hy : s.Stands r m y) :
    r.slot m ≠ none := by
  cases hy with
  | scalar hk _ _ => exact absurd ⟨_, hk⟩ hb
  | done _ hdone => simp [hdone]
  | reference _ hym => exact hr.live y m hym

/-- What stands for a finished native mentions what its result mentions. -/
theorem mentions_of_stands (hmn : m ≠ n) (hb : ¬ s.IsBasic m) (hw : r.slot m = some (.done w))
    (h : Mentions r n w) (hy : s.Stands r m y) : Mentions r n y := by
  cases hy with
  | scalar hk _ _ => exact absurd ⟨_, hk⟩ hb
  | done _ hdone =>
    rw [hw] at hdone
    cases hdone
    exact h
  | reference _ hym =>
    -- a reference to the other type leads into what its slot holds
    refine mentions_of_inside ?_ h
    simp [Pool.inside, hym, hmn, hw]

/-- The result of a native that is not closed mentions what the native holds mentions. -/
theorem mentions_of_built (hu : s.Holds m u) (h : s.Built r m w)
    (hpass : (∃ decl, s.types.kind m = .named decl) → s.Stands r u w)
    (hheld : ∀ z, s.Stands r u z → Mentions r n z) : Mentions r n w := by
  rcases h.stands_or_part hu hpass with ⟨_, hst⟩ | ⟨hc, z, hz, hst⟩
  · exact hheld w hst
  · rw [← inside_of_container hc n] at hz
    exact mentions_of_inside hz (hheld z hst)

/-- **If no native of its ring had a slot when `n` was begun, and no other one is closed, its
shape refers to `n`.**  By induction on the way around the ring. -/
theorem refersTo_of_unmet (ha : (p.begin n).Advances r) (hr : s.Sound r) (hn : s.OnRing n)
    (hunmet : ∀ m, s.InRing n m → p.slot m = none)
    (hpass : ∀ m, s.InRing n m → m ≠ n → r.slot m ≠ none →
      (∃ decl, s.types.kind m = .named decl) → Passes s r m)
    (hu : s.Holds n u) (hx : s.Stands r u x) : r.refersTo x n = true := by
  have hin : r.slot n = some .inProgress := ha.slot_begun
  obtain ⟨c, hc, hback⟩ := hn.exists_held
  obtain rfl := Holds.unique _ _ _ hu hc
  -- around the ring, up to where `n` comes up for the first time
  have hpath := Graph.reaches_before hback
  have hfound : s.InRing n u → ∀ y, s.Stands r u y → Mentions r n y := by
    clear hx hc hu hback
    induction hpath using Relation.ReflTransGen.head_induction_on with
    | refl =>
      -- back at `n`, which is in progress
      intro _ y hy
      cases hy with
      | scalar hk _ _ => exact absurd ⟨_, hk⟩ hn.not_isBasic
      | done _ hdone =>
        rw [hin] at hdone
        cases hdone
      | reference _ hyn => exact ⟨y, .refl, hyn⟩
    | @head a b hab _ ih =>
      intro hring y hy
      -- `a` was begun and finished since
      have hslot : r.slot a ≠ none := hr.slot_of_stands hab.1.not_isBasic hy
      have hbegin : (p.begin n).slot a = none :=
        (Pool.slot_begin_of_ne hab.2).trans (hunmet a hring)
      obtain ⟨w, hw⟩ : ∃ w, r.slot a = some (.done w) := by
        obtain ⟨slot, hs⟩ := Option.ne_none_iff_exists'.1 hslot
        cases slot with
        | inProgress => exact absurd hs (ha.fresh a hbegin)
        | done w => exact ⟨w, hs⟩
      have hheld : (∃ decl, s.types.kind a = .named decl) → s.Stands r b w := by
        intro hname
        obtain ⟨t, ht, hst⟩ := hpass a hring hab.2 hslot hname
        rw [hw] at ht
        cases ht
        exact hst b hab.1
      have hresult : Mentions r n w :=
        mentions_of_built hab.1 (hr.built a w hw) hheld (ih (hring.tail hab.1))
      exact mentions_of_stands hab.2 hab.1.not_isBasic hw hresult hy
  exact Pool.refersTo_iff.2 (hfound (.single hu) x hx)

/-! ## §4. A run over rings. -/

/-- No native of the ring of `c` has a slot or is listed. -/
def Untouched (s : Source) (p : Pool) (l : List NativeId) (c : NativeId) : Prop :=
  ∀ m, s.InRing c m → p.slot m = none ∧ m ∉ l

/-- To begin a native is to put it on the list of those passed. -/
theorem untouched_begin_iff {l : List NativeId} {c : NativeId} :
    s.Untouched (p.begin n) l c ↔ s.Untouched p (n :: l) c := by
  have hmove : ∀ m, (p.begin n).slot m = none ∧ m ∉ l ↔ p.slot m = none ∧ m ∉ n :: l := by
    intro m
    rw [Pool.slot_begin_eq_none_iff, List.mem_cons, not_or, and_assoc]
  exact forall_congr' fun m => imp_congr_right fun _ => hmove m

/-- What was met has a slot, or is listed, after and before a run alike. -/
theorem Converts.untouched_iff {ns met l : List NativeId} {ids : List EntryId} {c : NativeId}
    (h : s.Converts ns p met ids q) : s.Untouched q l c ↔ s.Untouched p (met ++ l) c := by
  have hmove : ∀ m, q.slot m = none ∧ m ∉ l ↔ p.slot m = none ∧ m ∉ met ++ l := by
    intro m
    have hmet : q.slot m = none ↔ p.slot m = none ∧ m ∉ met := by
      have hslot := h.mem_met_iff m
      tauto
    rw [hmet, List.mem_append, not_or, and_assoc]
  exact forall_congr' fun m => imp_congr_right fun _ => hmove m

/-- What becomes of a named member of a ring when its conversion ends. -/
theorem finish_on_ring {t : EntryId} {parts : List EntryId} {inner : List NativeId}
    (hp : s.Sound p) (hslot : p.slot n = none)
    (hparts : s.Converts (s.edges n) (p.begin n) inner parts r)
    (ht : s.Assembles n r parts t r') (hn : s.OnRing n)
    (hname : ∃ decl, s.types.kind n = .named decl)
    (hpass : ∀ m, s.InRing n m → m ≠ n → m ∈ inner → (∃ decl, s.types.kind m = .named decl) →
      Passes s r m) :
    (s.Untouched p [] n → Closes (r'.finish n t) n) ∧
      (¬ s.Untouched p [] n → Passes s (r'.finish n t) n) := by
  have hr : s.Sound r := hparts.sound (hp.begin hslot)
  have hin : r.slot n = some .inProgress := hparts.advances.slot_begun
  have hg : r.Grows (r'.finish n t) := grows_finish ht hin
  have hnow : (r'.finish n t).slot n = some (.done t) := Pool.slot_finish_self r' n t
  obtain ⟨u, hu, _⟩ := hn.exists_held
  obtain ⟨decl, shape, hd, hc, rfl⟩ : ∃ decl shape, s.Declares n decl shape ∧
      shape.isContainer = true ∧ decl.underlying = u := by
    obtain ⟨decl, hk⟩ := hname
    simpa [hk] using holds_iff.1 hu
  obtain ⟨x, rfl, _, hcase⟩ := ht.of_container hd hc
  have hret := hparts.returned
  rw [edges_container hd hc] at hret
  have hx : s.Stands r decl.underlying x := (List.forall₂_cons.1 hret).1.stands
  constructor
  · intro hfree
    have hunmet : ∀ m, s.InRing n m → p.slot m = none := fun m hm => (hfree m hm).1
    have hrefers : r.refersTo x n = true := by
      refine refersTo_of_unmet hparts.advances hr hn hunmet (fun m hm hmn hs => ?_) hu hx
      refine hpass m hm hmn (((hparts.mem_met_iff m).1 hs).resolve_left fun hbegin => hbegin ?_)
      exact Pool.slot_begin_eq_none_iff.2 ⟨hunmet m hm, hmn⟩
    -- so it becomes a message
    obtain ⟨hno, _⟩ | ⟨_, rfl, rfl⟩ := hcase
    · rw [hrefers] at hno
      cases hno
    · exact ⟨_, _, hnow, (Pool.entry_finish _ _ _ _).trans (Pool.entry_push r _)⟩
  · intro htouched
    obtain ⟨m, hm, hmet⟩ : ∃ m, s.InRing n m ∧ p.slot m ≠ none := by
      simpa [Untouched] using htouched
    have hno := refersTo_eq_false_of_met hp hslot hparts.advances hr hn hm hmet hu hx
    -- so it takes over what its shape came to
    obtain ⟨_, rfl, rfl⟩ | ⟨hrefers, _⟩ := hcase
    · refine ⟨t, hnow, fun v hv => ?_⟩
      obtain rfl := Holds.unique _ _ _ hu hv
      exact hx.mono hg
    · rw [hno] at hrefers
      cases hrefers

/-- **What becomes of the named members of rings in a run.**  By induction on the run: a member is
closed if no native of its ring had a slot when it was begun, and passes on the conversion of its
shape otherwise. -/
theorem Converts.rings {ns met : List NativeId} {ids : List EntryId}
    (h : s.Converts ns p met ids q) : s.Sound p →
      ∀ l c l', met = l ++ c :: l' → s.OnRing c → (∃ decl, s.types.kind c = .named decl) →
        (s.Untouched p l c → Closes q c) ∧ (¬ s.Untouched p l c → Passes s q c) := by
  induction h with
  | nil p =>
    intro _ l c l' hmet
    simp at hmet
  | basic _ _ _ ih => exact ih
  | known _ _ _ ih => exact ih
  | pending _ hslot _ ih =>
    intro hp
    simpa only [Untouched, Pool.slot_intern] using ih (hp.refer (by simp [hslot]))
  | @fresh n t ns p r r' inner parts met ids q hb hslot hparts ht hrest ihparts ihrest =>
    intro hp l c l' hmet hring hname
    have hbegin : s.Sound (p.begin n) := hp.begin hslot
    have hr : s.Sound r := hparts.sound hbegin
    have hin : r.slot n = some .inProgress := hparts.advances.slot_begun
    have hlast : (r'.finish n t).Grows q := hrest.advances.toGrows
    cases l with
    | nil =>
      -- the native that is begun here
      obtain ⟨rfl, _⟩ := List.cons.inj hmet
      have hpass : ∀ m, s.InRing n m → m ≠ n → m ∈ inner →
          (∃ decl, s.types.kind m = .named decl) → Passes s r m := by
        intro m hm hmn hmem hmname
        obtain ⟨l₁, l₂, hsplit⟩ := List.append_of_mem hmem
        refine (ihparts hbegin l₁ m l₂ hsplit (hring.member hm) hmname).2 fun hfree => ?_
        exact (Pool.slot_begin_eq_none_iff.1 (hfree n (hring.inRing_symm hm)).1).2 rfl
      obtain ⟨hclose, hkeep⟩ := finish_on_ring hp hslot hparts ht hring hname hpass
      exact ⟨fun h => (hclose h).mono hlast, fun h => (hkeep h).mono hlast⟩
    | cons a l =>
      obtain ⟨rfl, htail⟩ := List.cons.inj hmet
      -- met after `n` was finished
      have hlate : ∀ l₁, l = inner ++ l₁ → met = l₁ ++ c :: l' →
          (s.Untouched p (n :: l) c → Closes q c) ∧
            (¬ s.Untouched p (n :: l) c → Passes s q c) := by
        rintro l₁ rfl hmet'
        have hone : s.Converts [n] p (n :: inner ++ []) [t] (r'.finish n t) :=
          .fresh hb hslot hparts ht (.nil _)
        rw [List.append_nil] at hone
        rw [← List.cons_append, ← hone.untouched_iff]
        exact ihrest (hp.finish hslot hparts hr ht) l₁ c l' hmet' hring hname
      rcases List.append_eq_append_iff.1 htail with ⟨l₁, hl, hmet'⟩ | ⟨l₁, hinner, hmet'⟩
      · exact hlate l₁ hl hmet'
      · cases l₁ with
        | nil => exact hlate [] (by simpa using hinner.symm) (by simpa using hmet'.symm)
        | cons d l₁ =>
          -- met while `n` was in progress
          obtain ⟨rfl, _⟩ := List.cons.inj hmet'
          have hq : r.Grows q := (grows_finish ht hin).trans hlast
          obtain ⟨hclose, hkeep⟩ := ihparts hbegin l c l₁ hinner hring hname
          rw [← untouched_begin_iff]
          exact ⟨fun h => (hclose h).mono hq, fun h => (hkeep h).mono hq⟩

end RpcSchema.Source
