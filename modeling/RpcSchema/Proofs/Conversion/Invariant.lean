/-
  RpcSchema.Proofs.Conversion.Invariant
  ─────────────────────────────────────
  **WHAT HOLDS OF A POOL BETWEEN TWO STEPS OF A CONVERSION.**

  A conversion hands out references to what is still under way, so no
  native is known to be converted faithfully before the whole run is over.
  What holds in between is `Sound`:

    • a finished native is built from parts that stand for its parts;
    • a reference refers to a native that has a slot;
    • every list and every map is the result of a finished native, and
      nothing but the text of an error may be missing;
    • results that are references are flat (`Pool.Flat`);
    • a pointer that only leads to further pointers got a reference.

  Flatness is the delicate part.  It rests on `Converts.shared`: when a
  conversion ends in a reference, all natives it met have that same
  result, because nothing but pointers was met on the way.

  Main statement: `Converts.sound` — runs keep pools sound.
-/
import RpcSchema.Proofs.Conversion.Standing

namespace RpcSchema

/-! ## §1. The fixed entries. -/

/-- The scalars and the unconstrained value are where they belong. -/
structure Pool.Based (p : Pool) : Prop where
  scalar : ∀ c, p.entry (.scalar c) = .scalar c
  any : p.entry .any = .any
  hasAny : p.Has .any

theorem Pool.Based.mono {p q : Pool} (hg : p.Grows q) (h : p.Based) : q.Based where
  scalar c := by rw [hg.entry_of_ne_any (by simp [h.scalar]), h.scalar]
  any := by rw [hg.entry_eq _ h.hasAny, h.any]
  hasAny := hg.has h.hasAny

theorem Pool.based_start : Pool.start.Based where
  scalar c := by cases c <;> rfl
  any := rfl
  hasAny := ⟨8, by decide, rfl⟩

namespace Source

variable (s : Source)

/-! ## §2. Pointers. -/

/-- The native that a pointer, named or not, points to. -/
def pointee (n : NativeId) : Option NativeId :=
  match s.types.kind n with
  | .pointer elem => some elem
  | .named decl =>
    match s.types.kind decl.underlying with
    | .pointer _ => some decl.underlying
    | _ => none
  | _ => none

/-- From a pointer to what it points to. -/
def PointsTo (n m : NativeId) : Prop :=
  s.pointee n = some m

/-- A pointer that only leads to further pointers. -/
def Endless (n : NativeId) : Prop :=
  ∀ m, Relation.ReflTransGen s.PointsTo n m → ∃ e, s.PointsTo m e

variable {s} {n m : NativeId}

/-- A pointer points to its element, and a named pointer to its shape. -/
theorem pointsTo_iff :
    s.PointsTo n m ↔ s.types.kind n = .pointer m ∨
      ∃ decl elem, s.Declares n decl (.pointer elem) ∧ decl.underlying = m := by
  unfold PointsTo pointee
  cases hn : s.types.kind n with
  | pointer elem => simp [Declares, hn]
  | named decl =>
    -- a pointer that has a name is not the builtin error, which is an interface
    have herr : ∀ elem, s.types.kind decl.underlying = .pointer elem →
        s.types.isError n = false := by
      intro elem hu
      simp [Universe.isError, hn, hu]
    cases hu : s.types.kind decl.underlying with
    | pointer elem =>
      simp only [hu, Option.some.injEq, reduceCtorEq, false_or]
      constructor
      · rintro rfl
        exact ⟨decl, elem, ⟨hn, herr elem hu, hu⟩, rfl⟩
      · rintro ⟨decl', elem', ⟨hn', _, _⟩, rfl⟩
        rw [hn] at hn'
        cases hn'
        rfl
    | _ =>
      simp only [hu, reduceCtorEq, false_or, false_iff]
      rintro ⟨decl', elem', ⟨hn', _, hu'⟩, _⟩
      rw [hn] at hn'
      cases hn'
      rw [hu] at hu'
      cases hu'
  | _ => simp [Declares, hn]

theorem PointsTo.edges (h : s.PointsTo n m) : s.edges n = [m] := by
  rcases pointsTo_iff.1 h with hn | ⟨decl, elem, hn, rfl⟩
  · exact edges_pointer hn
  · exact edges_container hn rfl

/-- A pointer is no basic kind. -/
theorem PointsTo.not_isBasic (h : s.PointsTo n m) : ¬ s.IsBasic n := by
  rintro ⟨kind, hk⟩
  rcases pointsTo_iff.1 h with hn | ⟨decl, elem, hn, _⟩
  · rw [hn] at hk
    cases hk
  · rw [hn.1] at hk
    cases hk

theorem Endless.next (h : s.Endless n) (hm : s.PointsTo n m) : s.Endless m :=
  fun k hk => h k (.head hm hk)

/-- An endless pointer leads to an endless pointer. -/
theorem Endless.exists_next (h : s.Endless n) : ∃ m, s.PointsTo n m ∧ s.Endless m := by
  obtain ⟨m, hm⟩ := h n .refl
  exact ⟨m, hm, h.next hm⟩

/-- **Pointers that are not endless end.**  What holds of a native because it holds of the one that
it points to, if there is one, holds of them. -/
theorem induction_of_not_endless {P : NativeId → Prop}
    (step : ∀ n, (∀ m, s.PointsTo n m → P m) → P n) (h : ¬ s.Endless n) : P n := by
  unfold Endless at h
  push Not at h
  obtain ⟨e, hchain, hlast⟩ := h
  -- from the last pointer of the chain back to the first
  induction hchain using Relation.ReflTransGen.head_induction_on with
  | refl => exact step e fun m hm => absurd hm (hlast m)
  | @head a b hab _ ih =>
    refine step a fun m hm => ?_
    obtain rfl := Option.some.inj (hab.symm.trans hm)
    exact ih

theorem Endless.not_isBasic (h : s.Endless n) : ¬ s.IsBasic n := by
  obtain ⟨m, hm, _⟩ := h.exists_next
  exact hm.not_isBasic

/-! ## §3. What one assembly adds. -/

section Assembly

variable {r r' : Pool} {ids : List EntryId} {t : EntryId}

/-- The result is the only new entry. -/
theorem Assembles.entry_of_ne (h : s.Assembles n r ids t r') {id : EntryId} (hid : id ≠ t) :
    r'.entry id = r.entry id := by
  cases h with
  | pointer | any | scalar | through => rfl
  | slice | map | error => exact Pool.entry_intern_of_ne r _ hid
  | struct | interface | enum | lifted => exact Pool.entry_push_of_ne r _ hid

/-- A result that is a reference was the only part. -/
theorem Assembles.of_reference (h : s.Assembles n r ids t r') (hbase : r.Based)
    (ht : r'.entry t = .reference m) : r' = r ∧ ids = [t] ∧ ∃ e, s.edges n = [e] := by
  -- a new entry is no reference
  have hpush : ∀ e, (r.push e).2.entry (r.push e).1 = .reference m → e = .reference m := by
    intro e he
    rw [← he, Pool.entry_push]
  have hintern : ∀ e, (r.intern e).2.entry (r.intern e).1 = .reference m →
      e = .reference m := by
    intro e he
    rw [← he, Pool.entry_intern]
  cases h with
  | pointer hn => exact ⟨rfl, rfl, _, edges_pointer hn⟩
  | through hn hc => exact ⟨rfl, rfl, _, edges_container hn hc⟩
  | any =>
    rw [hbase.any] at ht
    cases ht
  | scalar _ _ _ =>
    rw [hbase.scalar] at ht
    cases ht
  | slice | map | error => cases hintern _ ht
  | struct | interface | enum | lifted => cases hpush _ ht

/-- An assembly adds no reference. -/
theorem Assembles.entry_of_reference (h : s.Assembles n r ids t r') (hbase : r.Based)
    {id : EntryId} (hid : r'.entry id = .reference m) : r.entry id = .reference m := by
  by_cases ht : id = t
  · subst ht
    obtain ⟨hr, _, _⟩ := h.of_reference hbase hid
    rw [← hr]
    exact hid
  · rw [← h.entry_of_ne ht]
    exact hid

/-- What a new entry is. -/
theorem Assembles.new_entry (h : s.Assembles n r ids t r') {id : EntryId}
    (hid : r'.entry id ≠ r.entry id) :
    id = t ∧ ((∃ d, r'.entry t = .definition d) ∨ r'.entry t = .optional (.scalar .string) ∨
      (∃ elem x, s.types.kind n = .slice elem ∧ r'.entry t = .array x) ∨
      ∃ key value x y, s.types.kind n = .map key value ∧ r'.entry t = .map x y) := by
  have hidt : id = t := by
    by_contra hne
    exact hid (h.entry_of_ne hne)
  subst hidt
  refine ⟨rfl, ?_⟩
  cases h with
  -- nothing is added
  | pointer | any | scalar | through => exact absurd rfl hid
  | struct | interface | enum | lifted => exact Or.inl ⟨_, Pool.entry_push r _⟩
  | error => exact Or.inr (Or.inl (Pool.entry_intern r _))
  | slice hn => exact Or.inr (Or.inr (Or.inl ⟨_, _, hn, Pool.entry_intern r _⟩))
  | map hn => exact Or.inr (Or.inr (Or.inr ⟨_, _, _, _, hn, Pool.entry_intern r _⟩))

/-- What is assembled is an entry, if the parts are. -/
theorem Assembles.has (h : s.Assembles n r ids t r') (hbase : r.Based)
    (hids : ∀ id ∈ ids, r.Has id) : r'.Has t := by
  cases h with
  | pointer | through => exact hids _ List.mem_cons_self
  | any => exact hbase.hasAny
  | scalar => exact Pool.has_of_entry_ne_any (by rw [hbase.scalar]; simp)
  | slice | map | error => exact Pool.has_intern r _
  | struct | interface | enum | lifted => exact Pool.has_push r _

/-- A pointer takes over the conversion of what it points to. -/
theorem Assembles.of_pointer {elem : NativeId} (hn : s.types.kind n = .pointer elem)
    (h : s.Assembles n r ids t r') : ids = [t] ∧ r' = r := by
  cases h with
  | pointer => exact ⟨rfl, rfl⟩
  | _ => grind [Declares, IsInterface, isError_of_kind_ne_named]

/-- A named container takes over the conversion of its shape, or is lifted. -/
theorem Assembles.of_container {decl : NamedType} {shape : NativeKind}
    (hn : s.Declares n decl shape) (hc : shape.isContainer = true)
    (h : s.Assembles n r ids t r') :
    ∃ x, ids = [x] ∧ r.entry x ≠ .reference n ∧
      (r.refersTo x n = false ∧ t = x ∧ r' = r ∨
        r.refersTo x n = true ∧
          t = (r.message decl.name [⟨closingField (r.entry x), x⟩]).1 ∧
          r' = (r.message decl.name [⟨closingField (r.entry x), x⟩]).2) := by
  cases h with
  | through _ _ hself hin => exact ⟨_, rfl, hself, Or.inl ⟨hin, rfl, rfl⟩⟩
  | lifted hn' _ hself hin =>
    obtain rfl := NativeKind.named.inj (hn.1.symm.trans hn'.1)
    exact ⟨_, rfl, hself, Or.inr ⟨hin, rfl, rfl⟩⟩
  -- no other assembly is of a container with a name
  | _ => grind [Declares, IsInterface, NativeKind.isContainer]

end Assembly

/-! ## §4. A conversion that ends in a reference. -/

/-- **All natives met on the way to a reference have that reference as their result.**  By
induction on the run: only pointers and what takes them over end in a reference, and these have
one part, whose conversion ended in the same reference. -/
theorem Converts.shared {ns met : List NativeId} {p q : Pool} {ids : List EntryId}
    (h : s.Converts ns p met ids q) :
    p.Based → ∀ n t m, ns = [n] → ids = [t] → q.entry t = .reference m →
      ∀ k ∈ met, q.slot k = some (.done t) := by
  induction h with
  | nil p =>
    intro _ n t m hns
    cases hns
  | basic _ _ hrest _ =>
    -- the answer is at hand, so nothing is met
    rintro _ n t m ⟨⟩ hids _ k hk
    cases hrest
    exact absurd hk List.not_mem_nil
  | known _ _ hrest _ =>
    rintro _ n t m ⟨⟩ hids _ k hk
    cases hrest
    exact absurd hk List.not_mem_nil
  | pending _ _ hrest _ =>
    rintro _ n t m ⟨⟩ hids _ k hk
    cases hrest
    exact absurd hk List.not_mem_nil
  -- only here a native is met, and the ones below it were met for its parts
  | @fresh n t ns p r r' inner parts met ids q _ hslot hparts ht hrest ihparts _ =>
    rintro hbase n' t' m ⟨⟩ ⟨⟩ hm k hk
    cases hrest
    rw [Pool.entry_finish] at hm
    by_cases hkn : k = n
    · rw [hkn]
      exact Pool.slot_finish_self _ _ _
    · -- met below `n`, whose result was the result of its only part
      have hbegin : (p.begin n).Based := hbase.mono (Pool.Grows.begin hslot)
      have hr : r.Based := hbegin.mono hparts.advances.toGrows
      obtain ⟨rfl, rfl, e, he⟩ := ht.of_reference hr hm
      have hkin : k ∈ inner := by simpa [hkn] using hk
      rw [Pool.slot_finish_of_ne hkn]
      exact ihparts hbegin e t m he rfl hm k hkin

/-! ## §5. The invariant. -/

variable (s)

/-- What holds of a pool between two steps of a conversion. -/
structure Sound (p : Pool) : Prop where
  base : p.Based
  /-- A result is an entry of the pool. -/
  has : ∀ n t, p.slot n = some (.done t) → p.Has t
  built : ∀ n t, p.slot n = some (.done t) → s.Built p n t
  /-- A reference refers to a native that has a slot. -/
  live : ∀ id n, p.entry id = .reference n → p.slot n ≠ none
  option : ∀ id x, p.entry id = .optional x → x = .scalar .string
  list : ∀ id x, p.entry id = .array x →
    ∃ n elem, s.types.kind n = .slice elem ∧ p.slot n = some (.done id)
  table : ∀ id x y, p.entry id = .map x y →
    ∃ n key value, s.types.kind n = .map key value ∧ p.slot n = some (.done id)
  flat : p.Flat
  endless : ∀ n t, p.slot n = some (.done t) → s.Endless n →
    ∃ m, p.entry t = .reference m ∧ s.Endless m

variable {s} {p q r r' : Pool} {t : EntryId}

/-- The first pool holds no container and no reference. -/
theorem isInterned_entry_start (id : EntryId) : (Pool.start.entry id).isInterned = false := by
  by_cases he : Pool.start.entry id = .any
  · rw [he]
    rfl
  · obtain ⟨i, hi, rfl⟩ := Pool.has_of_entry_ne_any he
    have hall : ∀ i < 9, (Pool.start.entry (.entry i)).isInterned = false := by decide
    exact hall i hi

/-- The first pool is sound. -/
theorem sound_start : s.Sound Pool.start where
  base := Pool.based_start
  has _ _ h := by cases h
  built _ _ h := by cases h
  live id n h := by simpa [h, Entry.isInterned] using isInterned_entry_start id
  option id x h := by simpa [h, Entry.isInterned] using isInterned_entry_start id
  list id x h := by simpa [h, Entry.isInterned] using isInterned_entry_start id
  table id x y h := by simpa [h, Entry.isInterned] using isInterned_entry_start id
  flat _ _ _ _ h := by cases h
  endless _ _ h := by cases h

/-- What stands for a native is an entry, if the results are. -/
theorem Stands.has (h : s.Stands p n t) (hbase : p.Based)
    (hhas : ∀ m id, p.slot m = some (.done id) → p.Has id) : p.Has t := by
  cases h with
  | scalar _ _ ht => exact Pool.has_of_entry_ne_any (by rw [ht, hbase.scalar]; simp)
  | done _ hslot => exact hhas n t hslot
  | reference _ ht => exact Pool.has_of_entry_ne_any (by simp [ht])

/-- To begin a native changes no entry. -/
theorem Sound.begin (hp : s.Sound p) (hslot : p.slot n = none) : s.Sound (p.begin n) := by
  have hg : p.Grows (p.begin n) := Pool.Grows.begin hslot
  have hentry : ∀ id, (p.begin n).entry id = p.entry id := Pool.entry_begin p n
  -- a finished native was finished before
  have hdone : ∀ m id, (p.begin n).slot m = some (.done id) → p.slot m = some (.done id) := by
    intro m id hm
    by_cases hmn : m = n
    · subst hmn
      rw [Pool.slot_begin_self] at hm
      cases hm
    · rwa [Pool.slot_begin_of_ne hmn] at hm
  -- and a native that has a slot keeps one
  have hslots : ∀ m, p.slot m ≠ none → (p.begin n).slot m ≠ none := by
    intro m hm
    by_cases hmn : m = n
    · exact absurd (hmn ▸ hslot) hm
    · rwa [Pool.slot_begin_of_ne hmn]
  refine ⟨hp.base.mono hg, fun m id h => hg.has (hp.has m id (hdone m id h)),
    fun m id h => (hp.built m id (hdone m id h)).mono hg,
    fun id m h => hslots m (hp.live id m (by rw [← hentry]; exact h)),
    fun id x h => hp.option id x (by rw [← hentry]; exact h), ?_, ?_, ?_, ?_⟩
  · intro id x h
    obtain ⟨m, elem, hm, hs⟩ := hp.list id x (by rw [← hentry]; exact h)
    exact ⟨m, elem, hm, hg.done m id hs⟩
  · intro id x y h
    obtain ⟨m, key, value, hm, hs⟩ := hp.table id x y (by rw [← hentry]; exact h)
    exact ⟨m, key, value, hm, hg.done m id hs⟩
  · intro k m a b hk ha hm hb
    rw [hentry] at ha hb
    exact hp.flat k m a b (hdone k a hk) ha (hdone m b hm) hb
  · intro k id hk hend
    obtain ⟨m, hm, hendm⟩ := hp.endless k id (hdone k id hk) hend
    exact ⟨m, by rw [hentry]; exact hm, hendm⟩

/-- Definitions, and references to natives that have a slot, may be added. -/
theorem Sound.extend (hp : s.Sound p) (hg : p.Grows q) (hslot : ∀ m, q.slot m = p.slot m)
    (hnew : ∀ id, q.entry id = p.entry id ∨ (q.entry id).isDefinition = true ∨
      ∃ n, q.entry id = .reference n ∧ p.slot n ≠ none) : s.Sound q := by
  -- a result is the entry it was
  have hkeep : ∀ m id, p.slot m = some (.done id) → q.entry id = p.entry id :=
    fun m id h => hg.entry_eq id (hp.has m id h)
  refine ⟨hp.base.mono hg, fun m id h => hg.has (hp.has m id (by rw [← hslot, h])),
    fun m id h => (hp.built m id (by rw [← hslot, h])).mono hg, ?_, ?_, ?_, ?_, ?_, ?_⟩
  · intro id m h
    rw [hslot]
    rcases hnew id with hold | hdef | ⟨n, hn, hs⟩
    · exact hp.live id m (by rw [← hold, h])
    · rw [h] at hdef
      cases hdef
    · rw [h] at hn
      cases hn
      exact hs
  -- what is neither a definition nor a reference is an old entry
  · intro id x h
    rcases hnew id with hold | hdef | ⟨n, hn, _⟩
    · exact hp.option id x (by rw [← hold, h])
    · rw [h] at hdef
      cases hdef
    · rw [h] at hn
      cases hn
  · intro id x h
    rcases hnew id with hold | hdef | ⟨n, hn, _⟩
    · obtain ⟨m, elem, hm, hs⟩ := hp.list id x (by rw [← hold, h])
      exact ⟨m, elem, hm, by rw [hslot, hs]⟩
    · rw [h] at hdef
      cases hdef
    · rw [h] at hn
      cases hn
  · intro id x y h
    rcases hnew id with hold | hdef | ⟨n, hn, _⟩
    · obtain ⟨m, key, value, hm, hs⟩ := hp.table id x y (by rw [← hold, h])
      exact ⟨m, key, value, hm, by rw [hslot, hs]⟩
    · rw [h] at hdef
      cases hdef
    · rw [h] at hn
      cases hn
  · intro k m a b hk ha hm hb
    rw [hslot] at hk hm
    rw [hkeep k a hk] at ha
    rw [hkeep m b hm] at hb
    exact hp.flat k m a b hk ha hm hb
  · -- an endless pointer ended in a reference, which is an old entry
    intro k id hk hend
    rw [hslot] at hk
    rw [hkeep k id hk]
    exact hp.endless k id hk hend

/-- A reference to a native in progress may be added. -/
theorem Sound.refer (hp : s.Sound p) (hslot : p.slot n ≠ none) :
    s.Sound (p.intern (.reference n)).2 := by
  refine hp.extend (Pool.Grows.intern p _) (Pool.slot_intern p _) fun id => ?_
  by_cases hid : id = (p.intern (.reference n)).1
  · rw [hid, Pool.entry_intern]
    exact Or.inr (Or.inr ⟨n, rfl, hslot⟩)
  · exact Or.inl (Pool.entry_intern_of_ne p _ hid)

/-- A definition may be added. -/
theorem Sound.define (hp : s.Sound p) (d : Definition) : s.Sound (p.define d).2 := by
  refine hp.extend (Pool.Grows.push p _) (Pool.slot_push p _) fun id => ?_
  have hnow : (p.define d).2.entry (p.define d).1 = .definition d := Pool.entry_push p _
  by_cases hid : id = (p.define d).1
  · rw [hid, hnow]
    exact Or.inr (Or.inl rfl)
  · exact Or.inl (Pool.entry_push_of_ne p _ hid)

/-! ## §6. The end of a conversion. -/

section Finish

variable {parts : List EntryId} {inner : List NativeId}

/-- A finished native is one that was finished before, or the one that is finished now. -/
theorem slot_finish_cases (ht : s.Assembles n r parts t r') {m : NativeId} {id : EntryId}
    (h : (r'.finish n t).slot m = some (.done id)) :
    m = n ∧ id = t ∨ m ≠ n ∧ r.slot m = some (.done id) := by
  by_cases hm : m = n
  · subst hm
    rw [Pool.slot_finish_self] at h
    cases h
    exact Or.inl ⟨rfl, rfl⟩
  · rw [Pool.slot_finish_of_ne hm, ht.slot_eq] at h
    exact Or.inr ⟨hm, h⟩

/-- What a native in progress is finished with keeps the pool growing. -/
theorem grows_finish (ht : s.Assembles n r parts t r') (hslot : r.slot n = some .inProgress) :
    r.Grows (r'.finish n t) := by
  refine ht.advances.toGrows.trans (Pool.Grows.setSlot _ fun id h => ?_)
  rw [ht.slot_eq, hslot] at h
  cases h

/-- What the only part of a native returned, when it is a reference. -/
theorem Sound.of_shared (hr : s.Sound r) {e m : NativeId} (h : s.Returned r e t)
    (ht : r.entry t = .reference m) :
    r.slot e = some (.done t) ∨ m = e ∧ r.slot e = some .inProgress := by
  -- a scalar is no reference
  cases h with
  | scalar _ _ hc =>
    rw [hc, hr.base.scalar] at ht
    cases ht
  | done _ hdone => exact Or.inl hdone
  | pending _ he hpending =>
    rw [he] at ht
    exact Or.inr ⟨(Entry.reference.inj ht).symm, hpending⟩

/-- A native whose result refers to the native that is finished now was met since that was begun.
If that comes out as a reference, both results are the same. -/
theorem eq_of_refers_to_finished (hp : s.Sound p) (hslot : p.slot n = none)
    (hparts : s.Converts (s.edges n) (p.begin n) inner parts r) (hr : s.Sound r)
    (ht : s.Assembles n r parts t r') {k m : NativeId} {a : EntryId} (hkn : k ≠ n)
    (hk : r.slot k = some (.done a)) (ha : r.entry a = .reference n)
    (hm : r'.entry t = .reference m) : t = a := by
  obtain ⟨rfl, rfl, e, he⟩ := ht.of_reference hr.base hm
  rw [he] at hparts
  have hbase : (p.begin n).Based := hp.base.mono (Pool.Grows.begin hslot)
  have hmet : k ∈ inner := by
    refine ((hparts.mem_met_iff k).1 (by simp [hk])).resolve_left fun hbegin => ?_
    -- had it been finished before, `n` would have had a slot
    rw [Pool.slot_begin_of_ne hkn] at hbegin
    obtain ⟨slot, hs⟩ := Option.ne_none_iff_exists'.1 hbegin
    have hs' : (p.begin n).slot k = some slot := (Pool.slot_begin_of_ne hkn).trans hs
    rw [hparts.advances.slot_eq hs'] at hk
    cases hk
    refine hp.live a n ?_ hslot
    rw [← ha, hparts.advances.entry_eq a (hp.has k a hs)]
    exact (Pool.entry_begin p n a).symm
  -- all natives met below share the reference that `n` ends in
  have hkt := hparts.shared hbase e t m rfl rfl hm k hmet
  rw [hk] at hkt
  cases hkt
  rfl

/-- A result that comes out as a reference was the result of the only part, or refers to it. -/
theorem eq_of_finished_reference
    (hparts : s.Converts (s.edges n) (p.begin n) inner parts r) (hr : s.Sound r)
    (ht : s.Assembles n r parts t r') {m : NativeId} {b : EntryId}
    (hm : r'.entry t = .reference m) (hb : r.slot m = some (.done b))
    (href : (r.entry b).isReference = true) : b = t := by
  obtain ⟨rfl, rfl, e, he⟩ := ht.of_reference hr.base hm
  have hret := hparts.returned
  rw [he] at hret
  rcases hr.of_shared (List.forall₂_cons.1 hret).1 hm with hdone | ⟨rfl, hpending⟩
  · exact hr.flat e m t b hdone hm hb href
  · -- a native in progress has no result
    rw [hpending] at hb
    cases hb

/-- **A conversion that ends leaves a flat pool.**  Of the two results that `Flat` compares, none,
one or both may be the one of now. -/
theorem flat_finish (hp : s.Sound p) (hslot : p.slot n = none)
    (hparts : s.Converts (s.edges n) (p.begin n) inner parts r) (hr : s.Sound r)
    (ht : s.Assembles n r parts t r') : (r'.finish n t).Flat := by
  intro k m a b hk ha hm hb
  rw [Pool.entry_finish] at ha
  rw [Pool.entry_finish] at hb
  obtain ⟨m', hb'⟩ : ∃ m', r'.entry b = .reference m' := by
    cases hbe : r'.entry b with
    | reference m' => exact ⟨m', rfl⟩
    | _ =>
      rw [hbe] at hb
      cases hb
  -- references are no new entries
  have ha' : r.entry a = .reference m := ht.entry_of_reference hr.base ha
  have href : (r.entry b).isReference = true := by
    rw [ht.entry_of_reference hr.base hb']
    rfl
  rcases slot_finish_cases ht hm with ⟨rfl, rfl⟩ | ⟨_, hm'⟩
  · -- the reference is to the native that is finished now
    rcases slot_finish_cases ht hk with ⟨_, rfl⟩ | ⟨hkn, hk'⟩
    · rfl
    · exact eq_of_refers_to_finished hp hslot hparts hr ht hkn hk' ha' hb'
  · -- it is to a native that was finished before
    rcases slot_finish_cases ht hk with ⟨rfl, rfl⟩ | ⟨_, hk'⟩
    · exact eq_of_finished_reference hparts hr ht ha hm' href
    · exact hr.flat k m a b hk' ha' hm' href

/-- An endless pointer gets a reference to an endless pointer. -/
theorem endless_finish (hparts : s.Converts (s.edges n) (p.begin n) inner parts r)
    (hr : s.Sound r) (ht : s.Assembles n r parts t r') (hn : s.Endless n) :
    ∃ m, r'.entry t = .reference m ∧ s.Endless m := by
  obtain ⟨e, he, hend⟩ := hn.exists_next
  have hret := hparts.returned
  rw [he.edges] at hret
  obtain ⟨x, parts', hx, hnil, rfl⟩ := List.forall₂_cons_left_iff.1 hret
  cases hnil
  -- what is pointed to returned a reference to an endless pointer
  obtain ⟨m, hxm, hendm, hxe⟩ : ∃ m, r.entry x = .reference m ∧ s.Endless m ∧
      (r.slot e = some (.done x) ∨ m = e ∧ r.slot e = some .inProgress) := by
    cases hx with
    | scalar hk _ _ => exact absurd ⟨_, hk⟩ hend.not_isBasic
    | done _ hdone =>
      obtain ⟨m, hm, hendm⟩ := hr.endless e x hdone hend
      exact ⟨m, hm, hendm, Or.inl hdone⟩
    | pending _ hxe hpending => exact ⟨e, hxe, hend, Or.inr ⟨rfl, hpending⟩⟩
  rcases pointsTo_iff.1 he with hk | ⟨decl, elem, hk, _⟩
  · -- a pointer without a name takes that over
    obtain ⟨hids, rfl⟩ := ht.of_pointer hk
    cases hids
    exact ⟨m, hxm, hendm⟩
  · obtain ⟨x', hids, hself, ⟨_, rfl, rfl⟩ | ⟨hin, _, _⟩⟩ := ht.of_container hk rfl
    · cases hids
      exact ⟨m, hxm, hendm⟩
    · -- a named pointer is not lifted, because its shape does not refer to it
      cases hids
      have hmn : m ≠ n := fun hmn => hself (by rw [hxm, hmn])
      have hno : r.refersTo x n = false := by
        refine Pool.refersTo_reference_eq_false hxm hmn fun b hb => ?_
        rcases hxe with hdone | ⟨rfl, hpending⟩
        · obtain ⟨k, hk', _⟩ := hr.endless m b hb hendm
          exact hr.flat e m x b hdone hxm hb (by rw [hk']; rfl)
        · rw [hpending] at hb
          cases hb
      rw [hno] at hin
      cases hin

/-- What is finished is an entry, what is finished now too. -/
theorem has_finish (hparts : s.Converts (s.edges n) (p.begin n) inner parts r)
    (ht : s.Assembles n r parts t r') (hbase : r.Based)
    (hhas : ∀ m id, r.slot m = some (.done id) → r.Has id) {m : NativeId} {id : EntryId}
    (h : (r'.finish n t).slot m = some (.done id)) : (r'.finish n t).Has id := by
  rcases slot_finish_cases ht h with ⟨_, rfl⟩ | ⟨_, hm⟩
  · refine ht.has hbase fun x hx => ?_
    obtain ⟨k, _, hk⟩ := exists_left_of_mem hparts.returned hx
    exact hk.stands.has hbase hhas
  · exact (grows_finish ht hparts.advances.slot_begun).has (hhas m id hm)

/-- What is finished is built, what is finished now too. -/
theorem built_finish (hparts : s.Converts (s.edges n) (p.begin n) inner parts r)
    (ht : s.Assembles n r parts t r') (hbase : r.Based)
    (hhas : ∀ m id, r.slot m = some (.done id) → r.Has id)
    (hbuilt : ∀ m id, r.slot m = some (.done id) → s.Built r m id) {m : NativeId} {id : EntryId}
    (h : (r'.finish n t).slot m = some (.done id)) : s.Built (r'.finish n t) m id := by
  have hin : r.slot n = some .inProgress := hparts.advances.slot_begun
  have hg : r'.Grows (r'.finish n t) :=
    Pool.Grows.setSlot _ fun id h => by simp [ht.slot_eq, hin] at h
  have hstands : List.Forall₂ (s.Stands r) (s.edges n) parts :=
    hparts.returned.imp fun _ _ h => h.stands
  -- either the slot that is done now, or one that was done before
  rcases slot_finish_cases ht h with ⟨rfl, rfl⟩ | ⟨_, hm⟩
  · exact (ht.built hstands fun _ _ h => h.has hbase hhas).mono hg
  · exact (hbuilt m id hm).mono (grows_finish ht hin)

/-- **A conversion that ends leaves a sound pool.** -/
theorem Sound.finish (hp : s.Sound p) (hslot : p.slot n = none)
    (hparts : s.Converts (s.edges n) (p.begin n) inner parts r) (hr : s.Sound r)
    (ht : s.Assembles n r parts t r') : s.Sound (r'.finish n t) := by
  have hin : r.slot n = some .inProgress := hparts.advances.slot_begun
  have hg : r.Grows (r'.finish n t) := grows_finish ht hin
  have hentry : ∀ id, (r'.finish n t).entry id = r'.entry id := Pool.entry_finish r' n t
  -- the slot of `n` is the only one that changes
  have hnow : (r'.finish n t).slot n = some (.done t) := Pool.slot_finish_self r' n t
  -- each result is the one of now or an old one, and so is each list and map
  refine ⟨hr.base.mono hg, fun m id => has_finish hparts ht hr.base hr.has,
    fun m id => built_finish hparts ht hr.base hr.has hr.built, ?_, ?_, ?_, ?_,
    flat_finish hp hslot hparts hr ht, ?_⟩
  · intro id m h
    rw [hentry] at h
    have hm := hr.live id m (ht.entry_of_reference hr.base h)
    by_cases hmn : m = n
    · -- a reference to `n` itself, which is finished now
      rw [hmn, hnow]
      simp
    · rwa [Pool.slot_finish_of_ne hmn, ht.slot_eq]
  · intro id x h
    rw [hentry] at h
    by_cases hold : r'.entry id = r.entry id
    · exact hr.option id x (by rw [← hold, h])
    · obtain ⟨rfl, hnew⟩ := ht.new_entry hold
      simpa [h] using hnew
  · intro id x h
    rw [hentry] at h
    by_cases hold : r'.entry id = r.entry id
    · obtain ⟨m, elem, hm, hs⟩ := hr.list id x (by rw [← hold, h])
      exact ⟨m, elem, hm, hg.done m id hs⟩
    · obtain ⟨rfl, hnew⟩ := ht.new_entry hold
      obtain ⟨elem, hn⟩ : ∃ elem, s.types.kind n = .slice elem := by simpa [h] using hnew
      exact ⟨n, elem, hn, hnow⟩
  · intro id x y h
    rw [hentry] at h
    by_cases hold : r'.entry id = r.entry id
    · obtain ⟨m, key, value, hm, hs⟩ := hr.table id x y (by rw [← hold, h])
      exact ⟨m, key, value, hm, hg.done m id hs⟩
    · obtain ⟨rfl, hnew⟩ := ht.new_entry hold
      obtain ⟨key, value, hn⟩ : ∃ key value, s.types.kind n = .map key value := by
        simpa [h] using hnew
      exact ⟨n, key, value, hn, hnow⟩
  · intro m id h hend
    rcases slot_finish_cases ht h with ⟨rfl, rfl⟩ | ⟨_, hm⟩
    · obtain ⟨k, hk, hendk⟩ := endless_finish hparts hr ht hend
      exact ⟨k, by rw [hentry, hk], hendk⟩
    · obtain ⟨k, hk, hendk⟩ := hr.endless m id hm hend
      exact ⟨k, by rw [hg.entry_of_ne_any (by simp [hk]), hk], hendk⟩

end Finish

/-- **Runs keep pools sound.** -/
theorem Converts.sound {ns met : List NativeId} {ids : List EntryId}
    (h : s.Converts ns p met ids q) (hp : s.Sound p) : s.Sound q := by
  induction h with
  | nil p => exact hp
  | basic _ _ _ ih => exact ih hp
  | known _ _ _ ih => exact ih hp
  | pending _ hslot _ ih => exact ih (hp.refer (by simp [hslot]))
  | fresh _ hslot hparts ht _ ihparts ihrest =>
    exact ihrest (hp.finish hslot hparts (ihparts (hp.begin hslot)) ht)

end Source

end RpcSchema
