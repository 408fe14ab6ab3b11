/-
  RpcSchema.Proofs.Conversion.Renaming
  ────────────────────────────────────
  **A SCHEMA DOES NOT SHOW THE IDS OF NATIVE TYPES.**

  Two packages that differ in the ids of their types, and in the order in
  which they list them, are compiled in lockstep: a step on a pool follows
  the same step on the pool with the other ids, up to the numbers that an
  error shows of pending types.  A conversion is made of such steps.

  Main statements: `Iso.convertWithin` of sources (conversions run in
  lockstep) and `Iso.compile` of packages.
-/
import Mathlib.Data.List.Nodup
import RpcSchema.Proofs.Conversion.Steady
import RpcSchema.Proofs.Native.Isomorphism
import RpcSchema.Proofs.Pool.Renaming

namespace RpcSchema

/-! ## §1. Errors. -/

namespace CompileError

/-- The same error, but for the numbers of pending types in the text of a map key. -/
inductive Agrees : CompileError → CompileError → Prop
  | same (e : CompileError) : Agrees e e
  | mapKey {key key' : String} (map : String) (h : SameButPending key key') :
      Agrees (.unsupportedMapKey key map) (.unsupportedMapKey key' map)
  | within {e e' : CompileError} (place : Place) (h : Agrees e e') :
      Agrees (e.within place) (e'.within place)

variable {e e' : CompileError}

/-- **Errors that agree are worded alike**, but for those numbers. -/
theorem Agrees.message (h : e.Agrees e') : SameButPending e.message e'.message := by
  induction h with
  | same e => exact .same _
  | mapKey map h =>
    exact .append (.append (.append (.append (.same _) h) (.same _)) (.same _)) (.same _)
  | within place _ ih => exact .append (.append ih (.same _)) (.same _)

/-- Errors that agree end the program with one code. -/
theorem Agrees.code (h : e.Agrees e') : e'.code = e.code := by
  induction h with
  | same e => rfl
  | mapKey map h => rfl
  | within place _ ih => exact ih

end CompileError

/-! ## §2. Packages. -/

/-- Entries that all have keys of their own are sorted in one way only. -/
theorem Sequence.sortBy_eq_of_perm {α κ : Type} [LE κ] [LT κ] [DecidableLT κ]
    [Std.IsLinearOrder κ] [Std.LawfulOrderLT κ] {key : α → κ} {l l' : List α} (h : l.Perm l')
    (hkeys : (l.map key).Nodup) : sortBy key l = sortBy key l' := by
  refine List.Perm.eq_of_pairwise (fun a b ha hb hab hba => ?_) (sortBy_sorted key l)
    (sortBy_sorted key l') ((sortBy_perm key l).trans (h.trans (sortBy_perm key l').symm))
  exact List.inj_on_of_nodup_map hkeys (mem_sortBy.1 ha) (h.mem_iff.2 (mem_sortBy.1 hb))
    (Std.le_antisymm hab hba)

namespace Package

/-- `f` takes the types of `p` to those of `q`, which may be listed in another order. -/
structure Iso (f : NativeId → NativeId) (p q : Package) : Prop where
  path : q.path = p.path
  types : p.types.Iso f q.types
  lookup : ∀ name, q.lookup? name = (p.lookup? name).map f
  listed : q.namedTypes.Perm (p.namedTypes.map fun x => (f x.1, rename f x.2))
  names : (p.namedTypes.map fun x => x.2.name).Nodup
  constants : ∀ n, p.isEnumerable n = true → q.constantsOf (f n) = p.constantsOf n

variable {f : NativeId → NativeId} {p q : Package} {n : NativeId}

/-- Exported methods are renamed one by one. -/
theorem Iso.exportedMethods (h : p.Iso f q) (n : NativeId) :
    q.exportedMethods (f n) = (p.exportedMethods n).map (rename f) := by
  unfold Package.exportedMethods
  rw [h.types.deref, h.types.named?]
  cases p.types.named? (p.types.deref n) with
  | none => rfl
  | some decl =>
    show (decl.methods.map (rename f)).filter _ = _
    rw [List.filter_map]
    rfl

/-- A signature covers another one or does not, whatever the ids. -/
theorem satisfies_rename (hf : Function.Injective f) (declared required : List Method) :
    satisfies (rename f declared) (rename f required) = satisfies declared required := by
  -- signatures are compared by their types, which are renamed one to one
  have htypes : ∀ vs ws : List Var, (rename f vs).map (·.type) = (rename f ws).map (·.type)
      ↔ vs.map (·.type) = ws.map (·.type) := by
    intro vs ws
    have hmap : ∀ vs : List Var, (rename f vs).map (·.type) = (vs.map (·.type)).map f := by
      intro vs
      rw [List.map_map]
      exact List.map_map
    rw [hmap, hmap, (List.map_injective_iff.2 hf).eq_iff]
  have hidentical : ∀ a b : Signature, (rename f a).identical (rename f b) = a.identical b := by
    intro a b
    rw [Bool.eq_iff_iff, Signature.identical_iff, Signature.identical_iff]
    exact and_congr Iff.rfl (and_congr (htypes _ _) (htypes _ _))
  unfold satisfies
  show (required.map (rename f)).all (fun wanted =>
    (declared.map (rename f)).any fun m =>
      decide (m.name = wanted.name) && m.signature.identical wanted.signature) = _
  simp only [List.all_map, List.any_map]
  congr 1
  funext wanted
  exact congrArg (declared.any ·) (funext fun m => congrArg _ (hidentical _ _))

/-- A declaration implements an interface under every naming, or under none. -/
theorem Iso.isImplementation (h : p.Iso f q) (required : List Method) (decl : NamedType) :
    q.isImplementation (rename f required) (rename f decl) = p.isImplementation required decl := by
  have hstruct : (q.types.kind (f decl.underlying)).isStruct
      = (p.types.kind decl.underlying).isStruct := by
    rw [h.types.kind]
    cases p.types.kind decl.underlying <;> rfl
  unfold Package.isImplementation
  rw [← satisfies_rename h.types.injective decl.methods required, ← hstruct]
  rfl

/-- **The implementations of an interface are the same, in the same order.** -/
theorem Iso.implementations (h : p.Iso f q) (n : NativeId) :
    q.implementations (f n) = (p.implementations n).map f := by
  have hset := h.types.methodSet n
  unfold Package.implementations
  simp only [hset, List.isEmpty_map]
  split
  · rfl
  · -- both lists are sorted by name, and no name stands there twice
    have hfound : (q.namedTypes.filter fun x =>
          q.isImplementation (rename f (p.types.methodSet n)) x.2).Perm
        ((p.namedTypes.filter fun x => p.isImplementation (p.types.methodSet n) x.2).map
          fun x => (f x.1, rename f x.2)) := by
      refine (h.listed.filter _).trans ?_
      rw [List.filter_map]
      refine List.Perm.of_eq (congrArg _ (List.filter_congr fun x _ => ?_))
      exact h.isImplementation _ x.2
    have hnames : ((q.namedTypes.filter fun x =>
        q.isImplementation (rename f (p.types.methodSet n)) x.2).map fun x => x.2.name).Nodup := by
      refine ((hfound.map _).nodup_iff).2 ?_
      rw [List.map_map]
      exact h.names.sublist (List.filter_sublist.map _)
    have hsort : ∀ l : List (NativeId × NamedType),
        (Sequence.sortBy (fun x => x.2.name) l).map (fun x => (f x.1, rename f x.2))
          = Sequence.sortBy (fun x => x.2.name) (l.map fun x => (f x.1, rename f x.2)) :=
      Sequence.map_sortBy fun _ => rfl
    show (Sequence.sortBy (fun x => x.2.name) (q.namedTypes.filter fun x =>
      q.isImplementation (rename f (p.types.methodSet n)) x.2)).map (·.1) = _
    rw [Sequence.sortBy_eq_of_perm hfound hnames, ← hsort, List.map_map, List.map_map]
    rfl

/-- The enumeration of a native: one for a native that can have one and has constants. -/
theorem lookup_enums (p : Package) (n : NativeId) :
    p.enums.lookup n =
      if p.isEnumerable n = true ∧ p.constantsOf n ≠ [] then some (p.enumeration n) else none := by
  -- every type of a constant is looked at once
  have hmem : n ∈ p.enumerated ↔ p.isEnumerable n = true ∧ p.constantsOf n ≠ [] := by
    have hconstants : p.constantsOf n ≠ [] ↔ n ∈ p.constants.map (·.type) := by
      simp [constantsOf]
    have hkeep : n ∈ (Sequence.keepFirst (·) (p.constants.map (·.type))).map (fun n => n) ↔
        n ∈ (p.constants.map (·.type)).map fun n => n := Sequence.mem_map_keepFirst
    rw [List.map_id', List.map_id'] at hkeep
    unfold enumerated
    rw [List.mem_filter, hkeep, hconstants, and_comm]
  rw [if_congr hmem.symm rfl rfl]
  unfold enums
  -- on the list of enumerations, of which the first with the id counts
  induction p.enumerated with
  | nil => simp
  | cons m rest ih =>
    rw [List.map_cons, List.lookup_cons, ih]
    by_cases hnm : n = m
    · simp [hnm]
    · simp [hnm, beq_false_of_ne hnm]

/-- **The enumerations are the same.** -/
theorem Iso.lookup_enums (h : p.Iso f q) (n : NativeId) :
    q.enums.lookup (f n) = p.enums.lookup n := by
  -- being local and being basic say nothing about ids
  have henumerable : q.isEnumerable (f n) = p.isEnumerable n := by
    unfold Package.isEnumerable Package.isLocal
    rw [h.types.named?, h.types.underlying, h.types.kind, h.path]
    congr 1
    · cases p.types.named? n <;> rfl
    · cases p.types.kind (p.types.underlying n) <;> rfl
  rw [Package.lookup_enums, Package.lookup_enums, henumerable]
  by_cases he : p.isEnumerable n = true
  · have hname : ((q.types.named? (f n)).map (·.name)).getD ""
        = ((p.types.named? n).map (·.name)).getD "" := by
      rw [h.types.named?]
      cases p.types.named? n <;> rfl
    unfold Package.enumeration
    rw [h.constants n he, hname]
  · simp [he]

end Package

/-! ## §3. Steps in lockstep. -/

namespace Conversion

variable {α β : Type} {f : NativeId → NativeId}

/-- On the pool with the ids renamed, the step `y` does what `x` does. -/
def Follows (f : NativeId → NativeId) (x y : Conversion α) : Prop :=
  ∀ p : Pool,
    (∃ a q, x.outcome p = (.ok a, q) ∧ y.outcome (p.renamed f) = (.ok a, q.renamed f)) ∨
      ∃ e e' q, x.outcome p = (.error e, q) ∧ y.outcome (p.renamed f) = (.error e', q.renamed f) ∧
        e.Agrees e'

theorem follows_pure (a : α) : Follows f (pure a) (pure a) :=
  fun p => Or.inl ⟨a, p, rfl, rfl⟩

theorem follows_throw {e e' : CompileError} (h : e.Agrees e') :
    Follows f (throw e : Conversion α) (throw e') :=
  fun p => Or.inr ⟨e, e', p, rfl, rfl, h⟩

/-- Additions follow each other if they commute with the renaming of the pool. -/
theorem follows_add {x y : Pool → EntryId × Pool}
    (h : ∀ p, y (p.renamed f) = ((x p).1, (x p).2.renamed f)) : Follows f (add x) (add y) := by
  intro p
  refine Or.inl ⟨(x p).1, (x p).2, rfl, ?_⟩
  show (Except.ok (y (p.renamed f)).1, (y (p.renamed f)).2) = _
  rw [h]

/-- **Following is kept in sequence.** -/
theorem Follows.bind {x y : Conversion α} {g k : α → Conversion β} (h : Follows f x y)
    (hgk : ∀ a, Follows f (g a) (k a)) : Follows f (x >>= g) (y >>= k) := by
  intro p
  rw [outcome_bind, outcome_bind]
  rcases h p with ⟨a, q, hx, hy⟩ | ⟨e, e', q, hx, hy, he⟩
  · rw [hx, hy]
    exact hgk a q
  · rw [hx, hy]
    exact Or.inr ⟨e, e', q, rfl, rfl, he⟩

/-- What is read of the two pools may differ, if the rest makes up for it. -/
theorem follows_read {r r' : Pool → α} {g k : α → Conversion β}
    (h : ∀ p, Follows f (g (r p)) (k (r' (p.renamed f)))) :
    Follows f (read r >>= g) (read r' >>= k) :=
  fun p => h p p

theorem Follows.within {x y : Conversion α} (h : Follows f x y) (place : Place) :
    Follows f (x.within place) (y.within place) := by
  intro p
  rcases h p with ⟨a, q, hx, hy⟩ | ⟨e, e', q, hx, hy, he⟩
  · exact Or.inl ⟨a, q, outcome_within_of_ok hx place, outcome_within_of_ok hy place⟩
  · exact Or.inr ⟨_, _, q, outcome_within_of_error hx place, outcome_within_of_error hy place,
      .within place he⟩

theorem Follows.mapM {g k : α → Conversion β} {l : List α} (h : ∀ a ∈ l, Follows f (g a) (k a)) :
    Follows f (l.mapM g) (l.mapM k) := by
  induction l with
  | nil => exact follows_pure []
  | cons a l ih =>
    rw [List.mapM_cons, List.mapM_cons]
    refine (h a List.mem_cons_self).bind fun b => ?_
    exact (ih fun c hc => h c (List.mem_cons_of_mem a hc)).bind fun _ => follows_pure _

/-- **Slots are found, begun and ended in lockstep.** -/
theorem Follows.memoized (hf : Function.Injective f) {x y : Conversion EntryId}
    (h : Follows f x y) (n : NativeId) : Follows f (memoized n x) (memoized (f n) y) := by
  intro p
  have hslot : (p.renamed f).slot (f n) = p.slot n := Pool.slot_renamed hf p n
  -- the slots agree, so the same of the three cases holds on both sides
  rcases hs : p.slot n with _ | _ | t
  · rw [memoized_of_unmet hs, memoized_of_unmet (hslot.trans hs)]
    have hbegin : (p.renamed f).begin (f n) = (p.begin n).renamed f :=
      Pool.setSlot_renamed hf p n _
    rcases h (p.begin n) with ⟨id, q, hx, hy⟩ | ⟨e, e', q, hx, hy, he⟩
    · refine Or.inl ⟨id, q.finish n id, outcome_inSlot_of_ok hx, ?_⟩
      rw [← hbegin] at hy
      rw [outcome_inSlot_of_ok hy]
      exact congrArg (Prod.mk _) (Pool.setSlot_renamed hf q n _)
    · refine Or.inr ⟨e, e', q.abandon n, outcome_inSlot_of_error hx, ?_, he⟩
      rw [← hbegin] at hy
      rw [outcome_inSlot_of_error hy, Pool.abandon_renamed hf]
  · -- under way: a reference is interned
    refine Or.inl ⟨_, _, (yields_memoized_of_inProgress hs).2 ⟨rfl, rfl⟩, ?_⟩
    have hintern := Pool.intern_renamed hf p (.reference n)
    refine (yields_memoized_of_inProgress (hslot.trans hs)).2 ?_
    exact ⟨(congrArg Prod.fst hintern).symm, (congrArg Prod.snd hintern).symm⟩
  · exact Or.inl ⟨t, p, (yields_memoized_of_done hs).2 ⟨rfl, rfl⟩,
      (yields_memoized_of_done (hslot.trans hs)).2 ⟨rfl, rfl⟩⟩

end Conversion

/-! ## §4. Conversions. -/

namespace Source

open Conversion

/-- `f` takes what `s` reads to what `t` reads. -/
structure Iso (f : NativeId → NativeId) (s t : Source) : Prop where
  package : s.package.Iso f t.package
  enums : ∀ n, t.enums.lookup (f n) = s.enums.lookup n
  fieldless : t.fieldless = s.fieldless

namespace Iso

variable {f : NativeId → NativeId} {s t : Source} {n : NativeId}

theorem types (h : s.Iso f t) : s.types.Iso f t.types :=
  h.package.types

theorem isBasic_iff (h : s.Iso f t) : t.IsBasic (f n) ↔ s.IsBasic n := by
  unfold IsBasic
  rw [h.types.kind]
  cases s.types.kind n <;> simp [rename, NativeKind.renamed]

/-- Unsupported kinds are refused alike. -/
theorem unsupported (h : s.Iso f t) {α : Type} (n : NativeId) (kind : NativeKind) :
    Follows f (s.unsupported n kind : Conversion α) (t.unsupported (f n) (rename f kind)) := by
  have hshape : (rename f kind).shape = kind.shape := by cases kind <;> rfl
  unfold Source.unsupported
  rw [h.types.spell, hshape]
  exact follows_throw (.same _)

/-- Scalars are made alike. -/
theorem scalar (h : s.Iso f t) (n : NativeId) (kind : BasicKind) :
    Follows f (s.scalar n kind) (t.scalar (f n) kind) := by
  unfold Source.scalar
  rw [h.types.spell]
  cases kind.scalar? with
  | some c => exact follows_pure _
  | none => exact follows_throw (.same _)

/-- Only here an error shows a difference. -/
theorem assembleMap (h : s.Iso f t) (n : NativeId) (key value : EntryId) :
    Follows f (s.assembleMap n key value) (t.assembleMap (f n) key value) := by
  have hf := h.types.injective
  unfold Source.assembleMap
  refine follows_read fun p => ?_
  have hkey : isKey ((p.renamed f).resolved key) = isKey (p.resolved key) := by
    rw [Pool.resolved_renamed hf]
    cases p.resolved key <;> rfl
  rw [hkey]
  split
  · exact follows_add fun p => Pool.intern_renamed hf p (.map key value)
  · -- the error shows the map as it is spelled and the key as it is displayed
    rw [h.types.spell]
    exact follows_read fun p => follows_throw (.mapKey _ (Pool.display_renamed hf p key))

/-- A container with a name is closed alike. -/
theorem close (h : s.Iso f t) (n : NativeId) (decl : NamedType) (id : EntryId) :
    Follows f (s.close n decl id) (t.close (f n) (rename f decl) id) := by
  have hf := h.types.injective
  unfold Source.close
  refine follows_read fun p => ?_
  have hself : (p.renamed f).entry id = .reference (f n) ↔ p.entry id = .reference n := by
    rw [Pool.entry_renamed, show Entry.reference (f n) = (Entry.reference n).renamed f from rfl,
      (Pool.renamed_injective hf).eq_iff]
  have hfield : closingField ((p.renamed f).entry id) = closingField (p.entry id) := by
    rw [Pool.entry_renamed]
    cases p.entry id <;> rfl
  show Follows f _ (if (p.renamed f).entry id = .reference (f n)
    then t.unsupported (f n) (t.types.kind (f decl.underlying)) else _)
  -- both tests commute with the renaming, so the same branch is taken
  simp only [hself, Pool.refersTo_renamed hf, h.types.kind]
  split
  · exact h.unsupported n _
  · split
    · show Follows f _ (add (·.message decl.name [⟨closingField ((p.renamed f).entry id), id⟩]))
      rw [hfield]
      exact follows_add fun p => Pool.push_renamed p (.definition _)
    · exact follows_pure id

/-- The fields that are shown are renamed one by one. -/
theorem shownFields (h : s.Iso f t) (decl : NamedType) (fs : List Field) :
    t.shownFields (rename f decl) (rename f fs) = (s.shownFields decl fs).map (rename f) := by
  unfold Source.shownFields
  rw [h.fieldless]
  show (if s.fieldless.contains decl.name then [] else (fs.map (rename f)).filter _) = _
  split
  · rfl
  · rw [List.filter_map]
    rfl

/-- **A conversion asks for the same parts, at the same places.** -/
theorem steps (h : s.Iso f t) (n : NativeId) :
    t.steps (f n) = (s.steps n).map fun part => (part.1, f part.2) := by
  unfold Source.steps
  rw [h.types.kind]
  -- only named types have parts whose places are named after types
  cases s.types.kind n with
  | named decl =>
    simp only [rename_named, rename_name, rename_underlying, h.types.isError, h.types.kind]
    split
    · rfl
    · cases s.types.kind decl.underlying with
      | struct fs =>
        show (t.shownFields (rename f decl) (rename f fs)).map _ = _
        rw [h.shownFields, List.map_map, List.map_map]
        rfl
      | interface asked =>
        show (t.package.implementations (f n)).map _ = _
        rw [h.package.implementations, List.map_map, List.map_map]
        refine List.map_congr_left fun i _ => ?_
        simp only [Function.comp_apply, h.types.spell]
      | _ => rfl
  | _ => rfl

/-- Named types are assembled alike, by the kind of what is underneath. -/
theorem assembleNamed (h : s.Iso f t) (n : NativeId) (decl : NamedType) (ids : List EntryId) :
    Follows f (s.assembleNamed n decl ids) (t.assembleNamed (f n) (rename f decl) ids) := by
  have hf := h.types.injective
  unfold Source.assembleNamed
  rw [h.types.isError, rename_underlying, h.types.kind]
  split
  · exact follows_add fun p => Pool.intern_renamed hf p (.optional _)
  · -- by the kind underneath; a definition is added, whose name is not renamed
    cases s.types.kind decl.underlying with
    | struct fs =>
      have hfields : List.zipWith (fun a id => (⟨a.name, id⟩ : MessageField))
            (t.shownFields (rename f decl) (rename f fs)) ids
          = List.zipWith (fun a id => ⟨a.name, id⟩) (s.shownFields decl fs) ids := by
        rw [h.shownFields, List.zipWith_map_left]
        rfl
      show Follows f _ (add (·.message decl.name (List.zipWith (fun a id => ⟨a.name, id⟩)
        (t.shownFields (rename f decl) (rename f fs)) ids)))
      rw [hfields]
      exact follows_add fun p => Pool.push_renamed p (.definition _)
    | interface asked =>
      show Follows f
        (if (s.types.methodSet n).isEmpty then return .any
          else add (·.define (.interface decl.name ids)))
        (if (t.types.methodSet (f n)).isEmpty then return .any
          else add (·.define (.interface decl.name ids)))
      rw [h.types.methodSet, List.isEmpty_map]
      split
      · exact follows_pure _
      · exact follows_add fun p => Pool.push_renamed p (.definition _)
    | basic kind =>
      simp only [rename_basic, h.enums]
      cases s.enums.lookup n with
      | some e => exact follows_add fun p => Pool.push_renamed p (.definition _)
      | none => exact h.scalar n kind
    | pointer | slice | map => exact h.close n decl _
    | named decl' => exact h.unsupported n (.named decl')
    | tuple elems => exact h.unsupported n (.tuple elems)

/-- **And assembles them in the same way.** -/
theorem assemble (h : s.Iso f t) (n : NativeId) (ids : List EntryId) :
    Follows f (s.assemble n ids) (t.assemble (f n) ids) := by
  have hf := h.types.injective
  unfold Source.assemble
  rw [h.types.kind]
  -- one addition or one refusal for each kind
  cases s.types.kind n with
  | basic kind => exact h.scalar n kind
  | pointer elem => exact follows_pure _
  | slice elem => exact follows_add fun p => Pool.intern_renamed hf p (.array _)
  | map key value => exact h.assembleMap n _ _
  | named decl => exact h.assembleNamed n decl ids
  | interface asked =>
    show Follows f
      (if (s.types.methodSet n).isEmpty then return EntryId.any
        else s.unsupported n (.interface asked))
      (if (t.types.methodSet (f n)).isEmpty then return EntryId.any
        else t.unsupported (f n) (.interface (rename f asked)))
    rw [h.types.methodSet, List.isEmpty_map]
    split
    · exact follows_pure _
    · exact h.unsupported n (.interface asked)
  | struct fs => exact h.unsupported n (.struct fs)
  | tuple elems => exact h.unsupported n (.tuple elems)

/-- **Conversions run in lockstep.**  By induction on the levels: a conversion asks for its parts
one level below, then assembles them. -/
theorem convertWithin (h : s.Iso f t) (k : Nat) (n : NativeId) :
    Follows f (s.convertWithin k n) (t.convertWithin k (f n)) := by
  -- on the levels that are left
  induction k generalizing n with
  | zero => exact follows_throw (.same _)
  | succ k ih =>
    by_cases hb : s.IsBasic n
    · obtain ⟨kind, hn⟩ := hb
      have hn' : t.types.kind (f n) = .basic kind := by rw [h.types.kind, hn]; rfl
      simp only [Source.convertWithin, hn, hn']
      exact h.scalar n kind
    · rw [convertWithin_succ hb, convertWithin_succ (mt h.isBasic_iff.1 hb), shape_eq, shape_eq]
      refine Follows.memoized h.types.injective (Follows.bind ?_ (h.assemble n)) n
      -- the parts are the same, renamed, and so are their places
      rw [h.steps, List.mapM_map]
      refine Follows.mapM fun part _ => ?_
      rcases part with ⟨_ | place, m⟩
      · exact ih m
      · exact (ih m).within place

/-- **Conversions of renamed natives follow each other.** -/
theorem convert (h : s.Iso f t) (n : NativeId) : Follows f (s.convert n) (t.convert (f n)) := by
  have hbudget : t.budget = s.budget := congrArg (· + 2) h.types.size
  unfold Source.convert
  rw [hbudget]
  exact h.convertWithin _ n

/-! ## §5. Services. -/

/-- Fields of requests follow each other. -/
theorem requestFields (h : s.Iso f t) (m : Method) :
    Follows f (s.requestFields m) (t.requestFields (rename f m)) := by
  -- leaving out the variadic parameter and renaming do not disturb each other
  have hparams : (rename f m).signature.requestParams = m.signature.requestParams.map (rename f) := by
    show (if m.signature.variadic then (m.signature.params.map (rename f)).dropLast
      else m.signature.params.map (rename f)) = _
    unfold Signature.requestParams
    split
    · exact (List.map_dropLast ..).symm
    · rfl
  unfold Source.requestFields
  rw [hparams, List.zipIdx_map, List.mapM_map]
  refine Follows.mapM fun v _ => ?_
  exact ((h.convert v.1.type).within _).bind fun _ => follows_pure _

/-- Fields of responses follow each other. -/
theorem responseFields (h : s.Iso f t) (m : Method) :
    Follows f (s.responseFields m) (t.responseFields (rename f m)) := by
  unfold Source.responseFields
  rw [show (rename f m).signature.results = m.signature.results.map (rename f) from rfl,
    List.zipIdx_map, List.mapM_map]
  refine Follows.mapM fun v _ => ?_
  refine ((h.convert v.1.type).within _).bind fun type => ?_
  -- whether the last result is the error does not depend on its number
  have hname : t.resultName (m.signature.results.map (rename f)).length (rename f v.1) v.2
      = s.resultName m.signature.results.length v.1 v.2 := by
    unfold resultName
    rw [List.length_map, show (rename f v.1).type = f v.1.type from rfl, h.types.isError]
    rfl
  show Follows f (pure (⟨s.resultName m.signature.results.length v.1 v.2, type⟩ : MessageField))
    (pure ⟨t.resultName (m.signature.results.map (rename f)).length (rename f v.1) v.2, type⟩)
  rw [hname]
  exact follows_pure _

/-- Methods are extracted alike. -/
theorem extractMethod (h : s.Iso f t) (m : Method) :
    Follows f (s.extractMethod m) (t.extractMethod (rename f m)) := by
  refine (h.requestFields m).bind fun _ => (h.responseFields m).bind fun _ => ?_
  refine (follows_add fun p => Pool.push_renamed p (.definition _)).bind fun _ => ?_
  exact (follows_add fun p => Pool.push_renamed p (.definition _)).bind fun _ => follows_pure _

theorem extractMethods (h : s.Iso f t) (entrypoint : NativeId) (excluded : List String) :
    Follows f (s.extractMethods entrypoint excluded)
      (t.extractMethods (f entrypoint) excluded) := by
  unfold Source.extractMethods
  rw [h.package.exportedMethods, List.filter_map, List.mapM_map]
  exact Follows.mapM fun m _ => h.extractMethod m

end Iso

end Source

namespace Package

variable {f : NativeId → NativeId} {p q : Package}

theorem Iso.source (h : p.Iso f q) (fieldless : List String) :
    (p.source fieldless).Iso f (q.source fieldless) :=
  ⟨h, h.lookup_enums, rfl⟩

/-- **Packages that differ in the ids of their types compile alike.** -/
theorem Iso.compile (h : p.Iso f q) (o : CompileOptions) :
    (∃ s, p.compile o = .ok s ∧ q.compile o = .ok (s.renamed f)) ∨
      ∃ e e', p.compile o = .error e ∧ q.compile o = .error e' ∧ e.Agrees e' := by
  unfold Package.compile
  rw [h.lookup]
  cases p.lookup? o.entrypoint with
  | none =>
    rw [h.path]
    exact Or.inr ⟨_, _, rfl, rfl, .same _⟩
  | some entrypoint =>
    have hstart : Pool.start.renamed f = Pool.start := Pool.start_renamed f
    have hrun := (h.source o.fieldless).extractMethods entrypoint o.excluded Pool.start
    rw [hstart] at hrun
    unfold Conversion.outcome at hrun
    -- both extractions succeed or both fail
    rcases hrun with ⟨methods, pool, hp, hq⟩ | ⟨e, e', pool, hp, hq, he⟩
    · simp only [Option.map_some, hp, hq]
      -- the check reads names only
      have hcheck : (schemaOf o methods (pool.renamed f)).checkNames
          = (schemaOf o methods pool).checkNames :=
        Schema.checkNames_renamed h.types.injective (schemaOf o methods pool)
      rw [hcheck]
      cases (schemaOf o methods pool).checkNames with
      | error e => exact Or.inr ⟨e, e, rfl, rfl, .same e⟩
      | ok _ => exact Or.inl ⟨_, rfl, rfl⟩
    · simp only [Option.map_some, hp, hq]
      exact Or.inr ⟨e, e', rfl, rfl, he⟩

end Package

end RpcSchema
