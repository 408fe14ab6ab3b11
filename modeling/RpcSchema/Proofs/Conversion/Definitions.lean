/-
  RpcSchema.Proofs.Conversion.Definitions
  ───────────────────────────────────────
  **EVERY DEFINITION IS THE ONE OF ITS NATIVE.**

  Definitions are nominal: adding one never asks whether there is one
  already.  What keeps them apart is the cache.  A native is begun when it
  has no slot, and its definition is added last, when nothing can fail any
  more, and is its result at once; so no definition is ever left without a
  native, and what was there before is the result of another one.

  Main statements: `stable_assigned` (every step keeps definitions
  assigned) and `definitions_are_assigned`.
-/
import RpcSchema.Proofs.Conversion.History
import RpcSchema.Proofs.Manifest.Walk

namespace RpcSchema

namespace Source

open Conversion

variable (s : Source)

/-! ## §1. Natives that are not made of another one. -/

/-- A named type that is a struct, an interface that asks for something, or an enumeration. -/
inductive Nominal (n : NativeId) : Prop
  | struct {decl fs} (hn : s.types.kind n = .named decl)
      (hu : s.types.kind decl.underlying = .struct fs)
  | interface {decl asked} (hn : s.types.kind n = .named decl)
      (hu : s.types.kind decl.underlying = .interface asked) (hasks : s.types.methodSet n ≠ [])
  | enum {decl kind e} (hn : s.types.kind n = .named decl)
      (hu : s.types.kind decl.underlying = .basic kind) (he : s.enums.lookup n = some e)

/-- The definition has the form that the native asks for, and its name. -/
inductive Titles (n : NativeId) : Definition → Prop
  | struct {decl fs} (hn : s.Declares n decl (.struct fs)) (fields : List MessageField) :
      Titles n (.message decl.name fields)
  | interface {decl asked} (hn : s.Declares n decl (.interface asked)) (ids : List EntryId) :
      Titles n (.interface decl.name ids)
  | enum {decl kind e} (hn : s.Declares n decl (.basic kind)) (he : s.enums.lookup n = some e) :
      Titles n (.enum e.name e.members)
  | lifted {decl shape} (hn : s.Declares n decl shape) (hc : shape.isContainer = true)
      (field : MessageField) : Titles n (.message decl.name [field])

variable {s} {n m : NativeId} {p q r r' : Pool} {t id : EntryId} {d : Definition}

section Assembly

variable {parts : List EntryId} {inner : List NativeId}

/-- A definition that is added is the one that the native asks for. -/
theorem Assembles.new_definition (h : s.Assembles n r parts t r')
    (hid : r'.entry id = .definition d) :
    r.entry id = .definition d ∨ id = t ∧ s.Titles n d := by
  by_cases hold : r'.entry id = r.entry id
  · exact Or.inl (by rw [← hold, hid])
  · obtain ⟨rfl, _⟩ := h.new_entry hold
    -- the definition that is pushed is the one that is read
    have hpush : ∀ d', (r.define d').2.entry (r.define d').1 = .definition d → d' = d := by
      intro d' hd
      rw [Pool.define, Pool.entry_push] at hd
      exact Entry.definition.inj hd
    have hintern : ∀ e, (r.intern e).2.entry (r.intern e).1 = .definition d →
        e = .definition d := by
      intro e he
      rw [← he, Pool.entry_intern]
    refine Or.inr ⟨rfl, ?_⟩
    cases h with
    | pointer | any | scalar | through => exact absurd rfl hold
    | slice | map | error => cases hintern _ hid
    | struct hn => exact hpush _ hid ▸ .struct hn _
    | interface hn => exact hpush _ hid ▸ .interface hn _
    | enum hn he =>
      obtain rfl := hpush _ hid
      exact .enum hn he
    | lifted hn hc => exact hpush _ hid ▸ .lifted hn hc _

/-- **A native that is not made of another one adds its result.** -/
theorem Assembles.not_has (h : s.Assembles n r parts t r') (hn : s.Nominal n)
    (herr : s.types.isError n = false) : ¬ r.Has t := by
  -- a definition is always pushed; the other assemblies are for natives of other kinds
  cases h with
  | struct | interface | enum | lifted => exact r.not_has_push _
  | _ => cases hn <;> grind [Declares, IsInterface, NativeKind.isContainer]

end Assembly

/-! ## §2. Definitions are assigned. -/

variable (s) (P : Definition → Prop)

/-- Every definition with the property `P` is the result of a native that asks for it, and natives
that are not made of another one have results of their own. -/
structure Assigned (p : Pool) : Prop extends s.Grounded p where
  titled : ∀ id d, p.entry id = .definition d → P d →
    ∃ n, p.slot n = some (.done id) ∧ s.Titles n d
  apart : ∀ n m t, s.Nominal n → s.types.isError n = false → s.Nominal m →
    s.types.isError m = false → p.slot n = some (.done t) → p.slot m = some (.done t) → n = m

variable {s P}

/-- The first pool holds no definition. -/
theorem isDefinition_entry_start (id : EntryId) :
    (Pool.start.entry id).isDefinition = false := by
  by_cases he : Pool.start.entry id = .any
  · rw [he]
    rfl
  · obtain ⟨i, hi, rfl⟩ := Pool.has_of_entry_ne_any he
    have hall : ∀ i < 9, (Pool.start.entry (.entry i)).isDefinition = false := by decide
    exact hall i hi

theorem assigned_start : s.Assigned P Pool.start where
  toGrounded := grounded_start
  titled id d h _ := by simpa [h, Entry.isDefinition] using isDefinition_entry_start id
  apart _ _ _ _ _ _ _ h := by cases h

/-- Definitions stay assigned while the same natives are finished and no definition is added. -/
theorem Assigned.extend (hp : s.Assigned P p) (hq : s.Grounded q)
    (hdone : ∀ n t, q.slot n = some (.done t) ↔ p.slot n = some (.done t))
    (hnew : ∀ id d, q.entry id = .definition d → P d → p.entry id = .definition d) :
    s.Assigned P q where
  toGrounded := hq
  titled id d h hd := by
    -- the native it was assigned to is still finished with it
    obtain ⟨n, hn, htitle⟩ := hp.titled id d (hnew id d h hd) hd
    exact ⟨n, (hdone n id).2 hn, htitle⟩
  apart n m t hn herr hm herr' hnt hmt :=
    hp.apart n m t hn herr hm herr' ((hdone n t).1 hnt) ((hdone m t).1 hmt)

/-- To begin a native assigns nothing and takes nothing away. -/
theorem Assigned.begin (hp : s.Assigned P p) (hb : ¬ s.IsBasic n) (hslot : p.slot n = none) :
    s.Assigned P (p.begin n) := by
  refine hp.extend (hp.toGrounded.begin hb hslot) (fun m t => ?_) fun id d h _ => ?_
  · by_cases hmn : m = n
    · simp [hmn, hslot]
    · rw [Pool.slot_begin_of_ne hmn]
  · rwa [Pool.entry_begin] at h

/-- A reference is no definition. -/
theorem Assigned.refer (hp : s.Assigned P p) (hc : s.Cyclic n) :
    s.Assigned P (p.intern (.reference n)).2 := by
  refine hp.extend (hp.toGrounded.refer hc) (fun m t => by rw [Pool.slot_intern])
    fun id d h _ => ?_
  by_cases hid : id = (p.intern (.reference n)).1
  · rw [hid, Pool.entry_intern] at h
    cases h
  · rwa [Pool.entry_intern_of_ne p _ hid] at h

/-- What is given up was not finished. -/
theorem Assigned.abandon (hp : s.Assigned P p) (n : NativeId) : s.Assigned P (p.abandon n) := by
  refine hp.extend (hp.toGrounded.abandon n) (fun m t => ?_) fun id d h _ => ?_
  · by_cases hmn : m = n
    · rw [hmn, Pool.slot_abandon_self]
      split
      · rename_i hpending
        simp [hpending]
      · exact Iff.rfl
    · rw [Pool.slot_abandon_of_ne hmn]
  · rwa [Pool.entry_abandon] at h

/-- A definition without the property may be added. -/
theorem Assigned.define (hp : s.Assigned P p) (hd : ¬ P d) : s.Assigned P (p.define d).2 := by
  refine hp.extend (hp.toGrounded.define d) (fun _ _ => Iff.rfl) fun id d' h hd' => ?_
  by_cases hid : id = (p.define d).1
  · rw [hid, Pool.define, Pool.entry_push] at h
    exact absurd (Entry.definition.inj h ▸ hd') hd
  · rwa [Pool.define, Pool.entry_push_of_ne p _ hid] at h

section Finish

variable {parts : List EntryId} {inner : List NativeId}

/-- **A native that is finished takes the definition that its assembly added.** -/
theorem Assigned.finish (hr : s.Assigned P r) (hb : ¬ s.IsBasic n)
    (hparts : s.Converts (s.edges n) (p.begin n) inner parts r)
    (ht : s.Assembles n r parts t r') : s.Assigned P (r'.finish n t) := by
  have hin : r.slot n = some .inProgress := hparts.advances.slot_begun
  refine ⟨hr.toGrounded.finish hb hparts ht, fun id d h hd => ?_,
    fun k m u hk hkerr hm hmerr hku hmu => ?_⟩
  · rw [Pool.entry_finish] at h
    rcases ht.new_definition h with hold | ⟨rfl, htitle⟩
    · -- what is assigned is not the native in progress
      obtain ⟨k, hk, htitle⟩ := hr.titled id d hold hd
      have hkn : k ≠ n := by
        rintro rfl
        rw [hin] at hk
        cases hk
      exact ⟨k, by rw [Pool.slot_finish_of_ne hkn, ht.slot_eq, hk], htitle⟩
    · exact ⟨n, Pool.slot_finish_self r' n id, htitle⟩
  · -- the result of `n` was not there, so that it is none of those before
    rcases slot_finish_cases ht hku with ⟨rfl, rfl⟩ | ⟨_, hku'⟩
    · rcases slot_finish_cases ht hmu with ⟨rfl, _⟩ | ⟨_, hmu'⟩
      · rfl
      · exact absurd (hr.has m u hmu') (ht.not_has hk hkerr)
    · rcases slot_finish_cases ht hmu with ⟨rfl, rfl⟩ | ⟨_, hmu'⟩
      · exact absurd (hr.has k u hku') (ht.not_has hm hmerr)
      · exact hr.apart k m u hk hkerr hm hmerr hku' hmu'

end Finish

/-- **Every step keeps definitions assigned.** -/
theorem stable_assigned (s : Source) (P : Definition → Prop) : s.Stable (s.Assigned P) where
  begin hp hb hslot := hp.begin hb hslot
  refer hp _ hc := hp.refer hc
  finish hr hb _ hparts ht := hr.finish hb hparts ht
  abandon hr _ := hr.abandon _

theorem assigned_poolAfter (s : Source) (P : Definition → Prop) (history : List NativeId) :
    s.Assigned P (s.poolAfter history) :=
  (s.stable_assigned P).after history (fun n h => by cases h) assigned_start

/-! ## §3. The builtin `error`. -/

/-- The builtin `error` has no definition, every other native that is not made of another one
does. -/
theorem Grounded.isError_of_nominal (hp : s.Grounded p) (hn : s.Nominal n)
    (ht : p.slot n = some (.done t)) :
    s.types.isError n = !(p.entry t).isDefinition := by
  -- how the result was built tells whether it is a definition
  cases hp.built n t ht with
  | error herr hentry => simp [herr, hentry, Entry.isDefinition]
  | struct hn' hentry | interface hn' _ hentry | enum hn' _ hentry | lifted hn' _ _ _ hentry =>
    simp [hn'.2.1, hentry, Entry.isDefinition]
  | _ => cases hn <;> grind [Declares, IsInterface, NativeKind.isContainer]

/-- Only one type is the builtin `error`. -/
theorem eq_error_of_isError {u : Universe} (h : u.Formed) (hn : u.isError n = true) :
    n = .error := by
  unfold Universe.isError at hn
  split at hn
  · rename_i decl hk
    rcases h.owned n decl hk with herror | hpackage
    · exact herror
    · simp [hpackage] at hn
  · cases hn

/-- **Natives that are not made of another one have results of their own.** -/
theorem Assigned.eq_of_done (hp : s.Assigned P p) (hformed : s.types.Formed) (hn : s.Nominal n)
    (hm : s.Nominal m) (hnt : p.slot n = some (.done t)) (hmt : p.slot m = some (.done t)) :
    n = m := by
  -- both are the builtin, or neither is, as they share a result
  have hboth : s.types.isError n = s.types.isError m :=
    (hp.isError_of_nominal hn hnt).trans (hp.isError_of_nominal hm hmt).symm
  cases herr : s.types.isError n with
  | true =>
    have herr' : s.types.isError m = true := hboth ▸ herr
    rw [eq_error_of_isError hformed herr, eq_error_of_isError hformed herr']
  | false => exact hp.apart n m t hn herr hm (hboth ▸ herr) hnt hmt

/-! ## §4. Conversions that were made before. -/

/-- Between calls a native that has converted is a basic kind, or finished. -/
theorem returned_of_convert (hended : ∀ n, p.slot n ≠ some .inProgress)
    (h : (s.convert n).Yields p t q) :
    (∃ kind c, s.types.kind n = .basic kind ∧ kind.scalar? = some c ∧ t = .scalar c) ∨
      ¬ s.IsBasic n ∧ q.slot n = some (.done t) := by
  obtain ⟨met, hrun⟩ := converts_of_convert h
  -- a reference would be to a native under way, and none is
  cases (List.forall₂_cons.1 hrun.returned).1 with
  | scalar hn hc ht => exact Or.inl ⟨_, _, hn, hc, ht⟩
  | done hb hslot => exact Or.inr ⟨hb, hslot⟩
  | pending _ _ hslot => exact absurd (hrun.advances.inProgress_before hslot) (hended n)

/-- A finished native converts to its result, and nothing changes. -/
theorem yields_of_done (hb : ¬ s.IsBasic n) (hslot : p.slot n = some (.done t)) :
    (s.convert n).Yields p t p := by
  rw [convert, budget, convertWithin_succ hb]
  exact (yields_memoized_of_done hslot).2 ⟨rfl, rfl⟩

/-- **What has converted converts again, to the same entry, and changes nothing.** -/
theorem yields_again (hended : ∀ n, p.slot n ≠ some .inProgress)
    (h : (s.convert n).Yields p t q) (hg : q.Grows r) : (s.convert n).Yields r t r := by
  rcases returned_of_convert hended h with ⟨kind, c, hn, hc, rfl⟩ | ⟨hb, hslot⟩
  · rw [convert, budget, convertWithin, hn]
    exact yields_scalar.2 ⟨c, hc, rfl, rfl⟩
  · exact yields_of_done hb (hg.done n t hslot)

/-- The pool after a conversion that succeeded, and others. -/
theorem poolAfter_append_cons {history : List NativeId}
    (h : (s.convert n).Yields (s.poolAfter history) t q) (later : List NativeId) :
    s.poolAfter (history ++ n :: later) = s.after q (later.map .convert) := by
  unfold poolAfter at h ⊢
  rw [List.map_append, after_append, List.map_cons, after_cons, outcome_call_convert,
    show (s.convert n).outcome _ = (.ok t, q) from h]

/-! ## §5. The natives of a package. -/

/-- An enumeration has the name of its type. -/
theorem name_of_lookup_enums {pkg : Package} {e : Enumeration} {decl : NamedType}
    (he : pkg.enums.lookup n = some e) (hn : pkg.types.kind n = .named decl) :
    e.name = decl.name := by
  obtain ⟨before, later, hsplit, _⟩ := List.lookup_eq_some_iff.1 he
  have hmem : (n, e) ∈ pkg.enums := by
    rw [hsplit]
    exact List.mem_append_right _ List.mem_cons_self
  obtain ⟨id, _, hid⟩ := List.mem_map.1 hmem
  obtain ⟨rfl, rfl⟩ := Prod.mk.inj hid
  simp [Package.enumeration, Universe.named?, hn]

/-- A native that asks for a definition is a named type of its name. -/
theorem name_of_titles {pkg : Package} {fieldless : List String}
    (h : (pkg.source fieldless).Titles n d) :
    ∃ decl, pkg.types.kind n = .named decl ∧ d.name = decl.name := by
  cases h with
  | struct hn | interface hn | lifted hn => exact ⟨_, hn.1, rfl⟩
  | enum hn he => exact ⟨_, hn.1, name_of_lookup_enums he hn.1⟩

end Source

/-- **Conversion neither duplicates nor merges definitions.**

For every package that a manifest describes, and after any conversions, whether they succeeded or
failed: every definition of the pool is the result of a named type of its name; two structs,
interfaces that ask for something or enumerations have results of their own; and what has
converted converts to the same entry whatever is converted in between, without any change to the
pool. -/
theorem definitions_are_assigned {m : Manifest} {pkg : Package} (h : m.build = .ok pkg)
    (fieldless : List String) (history : List NativeId) :
    (∀ id d, ((pkg.source fieldless).poolAfter history).entry id = .definition d →
      ∃ n decl, pkg.types.kind n = .named decl ∧ d.name = decl.name ∧
        ((pkg.source fieldless).poolAfter history).slot n = some (.done id)) ∧
    (∀ n k t, (pkg.source fieldless).Nominal n → (pkg.source fieldless).Nominal k →
      ((pkg.source fieldless).poolAfter history).slot n = some (.done t) →
      ((pkg.source fieldless).poolAfter history).slot k = some (.done t) → n = k) ∧
    ∀ n t q, ((pkg.source fieldless).convert n).Yields
        ((pkg.source fieldless).poolAfter history) t q →
      ∀ later, ((pkg.source fieldless).convert n).Yields
        ((pkg.source fieldless).poolAfter (history ++ n :: later)) t
        ((pkg.source fieldless).poolAfter (history ++ n :: later)) := by
  have hp := (pkg.source fieldless).assigned_poolAfter (fun _ => True) history
  refine ⟨fun id d hid => ?_, fun n k t hn hk hnt hkt => ?_, fun n t q hconvert later => ?_⟩
  · obtain ⟨n, hslot, htitle⟩ := hp.titled id d hid trivial
    obtain ⟨decl, hn, hname⟩ := Source.name_of_titles htitle
    exact ⟨n, decl, hn, hname, hslot⟩
  · exact hp.eq_of_done (Manifest.build_formed h) hn hk hnt hkt
  · -- later conversions only let the pool grow
    rw [Source.poolAfter_append_cons hconvert]
    exact Source.yields_again ((pkg.source fieldless).ended_poolAfter history) hconvert
      ((pkg.source fieldless).advances_after q _).toGrows

/-- What `A` leaves when it fails is the message of `B`. -/
theorem definitions_are_assigned_pair : pairManifest.build = .ok pairPackage ∧
    ∃ n decl, pairPackage.types.kind n = .named decl ∧ decl.name = "B" ∧
      ((pairPackage.source []).poolAfter [.entry 21]).slot n = some (.done (.entry 10)) := by
  have hentry : ((pairPackage.source []).poolAfter [.entry 21]).entry (.entry 10)
      = .definition (.message "B" [⟨"A", .entry 9⟩]) := by
    decide +kernel
  obtain ⟨n, decl, hn, hname, hslot⟩ :=
    (definitions_are_assigned pair_build [] [.entry 21]).1 _ _ hentry
  exact ⟨pair_build, n, decl, hn, hname.symm, hslot⟩

end RpcSchema
