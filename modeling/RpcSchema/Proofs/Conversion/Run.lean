/-
  RpcSchema.Proofs.Conversion.Run
  ───────────────────────────────
  **WHAT A RUN OF CONVERSIONS DOES.**

  `Converts ns p met ids q` is a run that succeeds: the natives `ns`,
  converted one after the other from the pool `p`, give the ids `ids` and
  leave the pool `q`; `met` lists the natives whose conversion was begun,
  in the order they were met.  It has one rule per answer the cache can
  give, and no budget.

  Main statements: `converts_of_yields` (every run of the program is one),
  `Converts.advances` (a run leaves the natives in progress as they were)
  and `Converts.mem_met_iff` (`met` is what got a slot).
-/
import Mathlib.Data.List.Basic
import RpcSchema.Proofs.Conversion.Steps
import RpcSchema.Proofs.Pool.Growth

namespace RpcSchema

/-- The kinds that a named type takes its conversion over from. -/
def NativeKind.isContainer : NativeKind → Bool
  | .pointer _ | .slice _ | .map _ _ => true
  | _ => false

namespace Source

variable (s : Source)

/-! ## §1. Declared shapes. -/

/-- A named type other than `error`, and the kind of its underlying type. -/
def Declares (n : NativeId) (decl : NamedType) (shape : NativeKind) : Prop :=
  s.types.kind n = .named decl ∧ s.types.isError n = false ∧ s.types.kind decl.underlying = shape

/-- An interface, named or not, other than `error`. -/
def IsInterface (n : NativeId) : Prop :=
  (∃ asked, s.types.kind n = .interface asked) ∨
    ∃ decl asked, s.Declares n decl (.interface asked)

/-- Everything but a basic kind has a slot of its own. -/
def IsBasic (n : NativeId) : Prop :=
  ∃ kind, s.types.kind n = .basic kind

variable {s} {n : NativeId}

/-- The builtin error has a name. -/
theorem isError_of_kind_ne_named (h : ∀ decl, s.types.kind n ≠ .named decl) :
    s.types.isError n = false := by
  unfold Universe.isError
  split
  · rename_i decl hn
    exact absurd hn (h decl)
  · rfl

/-- An id that was never handed out reads as the empty tuple. -/
theorem kind_of_not_mem_ids (h : n ∉ s.types.ids) : s.types.kind n = .tuple [] := by
  cases n with
  | undefined => rfl
  | entry i =>
    have hi : s.types.kinds.size ≤ i := by
      by_contra hlt
      exact h (List.mem_map.2 ⟨i, List.mem_range.2 (Nat.not_le.1 hlt), rfl⟩)
    show s.types.kinds.getD i (.tuple []) = .tuple []
    rw [Array.getD_eq_getD_getElem?, Array.getElem?_eq_none hi]
    rfl

theorem edges_pointer {elem : NativeId} (hn : s.types.kind n = .pointer elem) :
    s.edges n = [elem] := by
  simp [edges, steps, hn]

theorem edges_slice {elem : NativeId} (hn : s.types.kind n = .slice elem) :
    s.edges n = [elem] := by
  simp [edges, steps, hn]

theorem edges_map {key value : NativeId} (hn : s.types.kind n = .map key value) :
    s.edges n = [key, value] := by
  simp [edges, steps, hn]

theorem edges_struct {decl : NamedType} {fs : List Field} (hn : s.Declares n decl (.struct fs)) :
    s.edges n = (s.shownFields decl fs).map (·.type) := by
  obtain ⟨hn, herr, hu⟩ := hn
  simp [edges, steps, hn, herr, hu]

/-- An interface has its implementations. -/
theorem edges_interface {decl : NamedType} {asked : InterfaceShape}
    (hn : s.Declares n decl (.interface asked)) :
    s.edges n = s.package.implementations n := by
  obtain ⟨hn, herr, hu⟩ := hn
  simp [edges, steps, hn, herr, hu, Function.comp_def]

/-- A container with a name has its shape. -/
theorem edges_container {decl : NamedType} {shape : NativeKind} (hn : s.Declares n decl shape)
    (hc : shape.isContainer = true) : s.edges n = [decl.underlying] := by
  obtain ⟨hn, herr, rfl⟩ := hn
  simp only [edges, steps, hn, herr]
  cases hu : s.types.kind decl.underlying with
  | pointer elem => rfl
  | slice elem => rfl
  | map key value => rfl
  | _ => simp [hu, NativeKind.isContainer] at hc

/-- The builtin error has no parts. -/
theorem edges_error (hn : s.types.isError n = true) : s.edges n = [] := by
  obtain ⟨decl, hk⟩ : ∃ decl, s.types.kind n = .named decl := by
    by_contra hno
    rw [isError_of_kind_ne_named fun decl hk => hno ⟨decl, hk⟩] at hn
    cases hn
  simp [edges, steps, hk, hn]

theorem edges_enumerable {decl : NamedType} {kind : BasicKind}
    (hn : s.Declares n decl (.basic kind)) : s.edges n = [] := by
  obtain ⟨hn, herr, hu⟩ := hn
  simp [edges, steps, hn, herr, hu]

theorem edges_any (hn : s.IsInterface n) (hempty : s.types.methodSet n = []) :
    s.edges n = [] := by
  rcases hn with ⟨asked, hn⟩ | ⟨decl, asked, hn⟩
  · simp [edges, steps, hn]
  · rw [edges_interface hn]
    exact Package.implementations_of_empty hempty

/-! ## §2. What parts are assembled to. -/

/-- The name of the only field of a container that holds itself. -/
def closingField : Entry → String
  | .map _ _ => "entries"
  | _ => "values"

variable (s)

/-- `Assembles n r ids t r'`: from the pool `r`, where its parts are `ids`, the native `n` gets
the entry `t` in the pool `r'`. -/
inductive Assembles (n : NativeId) (r : Pool) : List EntryId → EntryId → Pool → Prop
  | pointer {elem x} (hn : s.types.kind n = .pointer elem) : Assembles n r [x] x r
  | slice {elem x} (hn : s.types.kind n = .slice elem) :
      Assembles n r [x] (r.array x).1 (r.array x).2
  | map {key value x y} (hn : s.types.kind n = .map key value)
      (hkey : isKey (r.resolved x) = true) : Assembles n r [x, y] (r.map x y).1 (r.map x y).2
  | any {ids} (hn : s.IsInterface n) (hempty : s.types.methodSet n = []) :
      Assembles n r ids .any r
  | error {ids} (hn : s.types.isError n = true) :
      Assembles n r ids (r.optional (.scalar .string)).1 (r.optional (.scalar .string)).2
  | struct {decl fs ids} (hn : s.Declares n decl (.struct fs)) :
      Assembles n r ids
        (r.message decl.name
          (List.zipWith (fun f id => ⟨f.name, id⟩) (s.shownFields decl fs) ids)).1
        (r.message decl.name
          (List.zipWith (fun f id => ⟨f.name, id⟩) (s.shownFields decl fs) ids)).2
  | interface {decl asked ids} (hn : s.Declares n decl (.interface asked))
      (hasks : s.types.methodSet n ≠ []) :
      Assembles n r ids (r.define (.interface decl.name ids)).1
        (r.define (.interface decl.name ids)).2
  | enum {decl kind ids e} (hn : s.Declares n decl (.basic kind))
      (he : s.enums.lookup n = some e) :
      Assembles n r ids (r.define e.definition).1 (r.define e.definition).2
  | scalar {decl kind ids c} (hn : s.Declares n decl (.basic kind))
      (he : s.enums.lookup n = none) (hc : kind.scalar? = some c) :
      Assembles n r ids (.scalar c) r
  | through {decl shape x} (hn : s.Declares n decl shape) (hc : shape.isContainer = true)
      (hself : r.entry x ≠ .reference n) (hin : r.refersTo x n = false) : Assembles n r [x] x r
  | lifted {decl shape x} (hn : s.Declares n decl shape) (hc : shape.isContainer = true)
      (hself : r.entry x ≠ .reference n) (hin : r.refersTo x n = true) :
      Assembles n r [x] (r.message decl.name [⟨closingField (r.entry x), x⟩]).1
        (r.message decl.name [⟨closingField (r.entry x), x⟩]).2

variable {s} {r r' : Pool} {ids : List EntryId} {t : EntryId}

open Conversion

/-- A basic kind yields its scalar and leaves the pool as it is. -/
theorem yields_scalar {kind : BasicKind} {id : EntryId} :
    (s.scalar n kind).Yields r id r' ↔ ∃ c, kind.scalar? = some c ∧ id = .scalar c ∧ r' = r := by
  unfold scalar
  cases hc : kind.scalar? with
  | none => exact iff_of_false not_yields_throw (by simp)
  | some c =>
    constructor
    · intro h
      exact ⟨c, rfl, yields_pure.1 h⟩
    · rintro ⟨c', hc', h⟩
      obtain rfl : c = c' := Option.some.inj hc'
      exact yields_pure.2 h

/-- **What closing a container with a name yields.**  A reference to itself is refused.  If the
shape refers back the shape becomes the field of a message, else the name is dropped. -/
theorem yields_close {decl : NamedType} {x : EntryId} (h : (s.close n decl x).Yields r t r') :
    r.entry x ≠ .reference n ∧
      (r.refersTo x n = false ∧ t = x ∧ r' = r ∨
        r.refersTo x n = true ∧
          t = (r.message decl.name [⟨closingField (r.entry x), x⟩]).1 ∧
          r' = (r.message decl.name [⟨closingField (r.entry x), x⟩]).2) := by
  unfold close at h
  obtain ⟨p, r₁, hread, hrest⟩ := yields_bind.1 h
  obtain ⟨rfl, rfl⟩ := yields_read.1 hread
  by_cases hself : r₁.entry x = .reference n
  · -- a pointer to itself
    rw [if_pos hself] at hrest
    exact absurd hrest not_yields_throw
  · -- a message of its own if the shape refers to the name, else the shape
    rw [if_neg hself] at hrest
    refine ⟨hself, ?_⟩
    cases hin : r₁.refersTo x n with
    | true =>
      rw [if_pos hin] at hrest
      exact Or.inr ⟨rfl, yields_add.1 hrest⟩
    | false =>
      rw [if_neg (by simp [hin])] at hrest
      exact Or.inl ⟨rfl, yields_pure.1 hrest⟩

/-- A map is assembled of its key and its value. -/
theorem assembles_map {key value : NativeId} {x y : EntryId}
    (hn : s.types.kind n = .map key value) (h : (s.assembleMap n x y).Yields r t r') :
    s.Assembles n r [x, y] t r' := by
  unfold assembleMap at h
  obtain ⟨ok, r₁, hread, hrest⟩ := yields_bind.1 h
  obtain ⟨rfl, rfl⟩ := yields_read.1 hread
  by_cases hkey : isKey (r₁.resolved x) = true
  · rw [if_pos hkey] at hrest
    obtain ⟨rfl, rfl⟩ := yields_add.1 hrest
    exact .map hn hkey
  · -- a key that is no key is an error, and this run had none
    rw [if_neg hkey] at hrest
    obtain ⟨_, _, _, hthrow⟩ := yields_bind.1 hrest
    exact absurd hthrow not_yields_throw

/-- A container with a name is assembled of its shape. -/
theorem assembles_container {decl : NamedType} {shape : NativeKind} {x : EntryId}
    (hn : s.Declares n decl shape) (hc : shape.isContainer = true)
    (h : (s.close n decl x).Yields r t r') : s.Assembles n r [x] t r' := by
  obtain ⟨hself, ⟨hin, rfl, rfl⟩ | ⟨hin, rfl, rfl⟩⟩ := yields_close h
  · exact .through hn hc hself hin
  · exact .lifted hn hc hself hin

/-- **What a named type is assembled to**, for each kind underneath. -/
theorem assembles_named {decl : NamedType} (hn : s.types.kind n = .named decl)
    (hlen : ids.length = (s.edges n).length) (h : (s.assembleNamed n decl ids).Yields r t r') :
    s.Assembles n r ids t r' := by
  unfold assembleNamed at h
  by_cases herr : s.types.isError n = true
  · rw [if_pos herr] at h
    obtain ⟨rfl, rfl⟩ := yields_add.1 h
    exact .error herr
  · rw [if_neg herr] at h
    have herr : s.types.isError n = false := by simpa using herr
    -- the one part of a container
    have hone : ∀ shape, s.types.kind decl.underlying = shape → shape.isContainer = true →
        (s.close n decl (ids.headD .absent)).Yields r t r' → s.Assembles n r ids t r' := by
      intro shape hu hc hclose
      rw [edges_container ⟨hn, herr, hu⟩ hc] at hlen
      obtain ⟨x, rfl⟩ := List.length_eq_one_iff.1 hlen
      exact assembles_container ⟨hn, herr, hu⟩ hc hclose
    -- one case for each kind that may stand behind the name
    cases hu : s.types.kind decl.underlying with
    | struct fs =>
      simp only [hu] at h
      obtain ⟨rfl, rfl⟩ := yields_add.1 h
      exact .struct ⟨hn, herr, hu⟩
    | interface asked =>
      simp only [hu] at h
      by_cases hempty : s.types.methodSet n = []
      · rw [if_pos (by simp [hempty])] at h
        obtain ⟨rfl, rfl⟩ := yields_pure.1 h
        exact .any (Or.inr ⟨decl, asked, hn, herr, hu⟩) hempty
      · rw [if_neg (by simp [hempty])] at h
        obtain ⟨rfl, rfl⟩ := yields_add.1 h
        exact .interface ⟨hn, herr, hu⟩ hempty
    | basic kind =>
      simp only [hu] at h
      cases he : s.enums.lookup n with
      | some e =>
        simp only [he] at h
        obtain ⟨rfl, rfl⟩ := yields_add.1 h
        exact .enum ⟨hn, herr, hu⟩ he
      | none =>
        simp only [he] at h
        obtain ⟨c, hc, rfl, rfl⟩ := yields_scalar.1 h
        exact .scalar ⟨hn, herr, hu⟩ he hc
    | pointer elem =>
      simp only [hu] at h
      exact hone _ hu rfl h
    | slice elem =>
      simp only [hu] at h
      exact hone _ hu rfl h
    | map key value =>
      simp only [hu] at h
      exact hone _ hu rfl h
    | named decl' =>
      simp only [hu] at h
      exact absurd h not_yields_throw
    | tuple elems =>
      simp only [hu] at h
      exact absurd h not_yields_throw

/-- **What an assembly that succeeds has done.** -/
theorem assembles_of_yields (hb : ¬ s.IsBasic n) (hlen : ids.length = (s.edges n).length)
    (h : (s.assemble n ids).Yields r t r') : s.Assembles n r ids t r' := by
  unfold assemble at h
  cases hn : s.types.kind n with
  | basic kind => exact absurd ⟨kind, hn⟩ hb
  | pointer elem =>
    -- as many ids as edges, so the default is never taken
    simp only [hn] at h
    rw [edges_pointer hn] at hlen
    obtain ⟨x, rfl⟩ := List.length_eq_one_iff.1 hlen
    obtain ⟨rfl, rfl⟩ := yields_pure.1 h
    exact .pointer hn
  | slice elem =>
    simp only [hn] at h
    rw [edges_slice hn] at hlen
    obtain ⟨x, rfl⟩ := List.length_eq_one_iff.1 hlen
    obtain ⟨rfl, rfl⟩ := yields_add.1 h
    exact .slice hn
  | map key value =>
    simp only [hn] at h
    rw [edges_map hn] at hlen
    obtain ⟨x, y, rfl⟩ := List.length_eq_two.1 hlen
    exact assembles_map hn h
  | named decl =>
    simp only [hn] at h
    exact assembles_named hn hlen h
  | interface asked =>
    simp only [hn] at h
    by_cases hempty : s.types.methodSet n = []
    · rw [if_pos (by simp [hempty])] at h
      obtain ⟨rfl, rfl⟩ := yields_pure.1 h
      exact .any (Or.inl ⟨asked, hn⟩) hempty
    · rw [if_neg (by simp [hempty])] at h
      exact absurd h not_yields_throw
  | struct fs =>
    simp only [hn] at h
    exact absurd h not_yields_throw
  | tuple elems =>
    simp only [hn] at h
    exact absurd h not_yields_throw

/-- An assembly only adds entries. -/
theorem Assembles.advances (h : s.Assembles n r ids t r') : r.Advances r' := by
  cases h with
  | pointer | any | scalar | through => exact Pool.Advances.refl r
  | slice | map | error => exact Pool.Advances.intern r _
  | struct | interface | enum | lifted => exact Pool.Advances.push r _

/-- Assembling does not touch the slots. -/
theorem Assembles.slot_eq (h : s.Assembles n r ids t r') (m : NativeId) :
    r'.slot m = r.slot m := by
  cases h with
  | pointer | any | scalar | through => rfl
  | slice | map | error => exact Pool.slot_intern r _ m
  | struct | interface | enum | lifted => rfl

/-! ## §3. Runs. -/

variable (s)

/-- A run that converts the natives `ns` in turn, from the pool `p` to the pool `q`; `met` lists
the natives that got a slot, in the order they were met. -/
inductive Converts : List NativeId → Pool → List NativeId → List EntryId → Pool → Prop
  | nil (p) : Converts [] p [] [] p
  | basic {n kind c ns p met ids q} (hn : s.types.kind n = .basic kind)
      (hc : kind.scalar? = some c) (hrest : Converts ns p met ids q) :
      Converts (n :: ns) p met (.scalar c :: ids) q
  | known {n t ns p met ids q} (hb : ¬ s.IsBasic n) (hslot : p.slot n = some (.done t))
      (hrest : Converts ns p met ids q) : Converts (n :: ns) p met (t :: ids) q
  | pending {n ns p met ids q} (hb : ¬ s.IsBasic n) (hslot : p.slot n = some .inProgress)
      (hrest : Converts ns (p.intern (.reference n)).2 met ids q) :
      Converts (n :: ns) p met ((p.intern (.reference n)).1 :: ids) q
  | fresh {n t ns p r r' inner parts met ids q} (hb : ¬ s.IsBasic n) (hslot : p.slot n = none)
      (hparts : Converts (s.edges n) (p.begin n) inner parts r)
      (ht : s.Assembles n r parts t r')
      (hrest : Converts ns (r'.finish n t) met ids q) :
      Converts (n :: ns) p (n :: inner ++ met) (t :: ids) q

variable {s}

/-- A run has one result for each native. -/
theorem Converts.length_eq {ns met : List NativeId} {p q : Pool} {ids : List EntryId}
    (h : s.Converts ns p met ids q) : ids.length = ns.length := by
  induction h with
  | nil => rfl
  | basic _ _ _ ih => simp [ih]
  | known _ _ _ ih => simp [ih]
  | pending _ _ _ ih => simp [ih]
  | fresh _ _ _ _ _ _ ih => simp [ih]

/-- Everything but a basic kind is converted once. -/
theorem convertWithin_succ (hb : ¬ s.IsBasic n) (k : Nat) :
    s.convertWithin (k + 1) n = memoized n (s.shape (s.convertWithin k) n (s.types.kind n)) := by
  rw [convertWithin]
  split
  · rename_i kind hn
    exact absurd ⟨kind, hn⟩ hb
  · rfl

/-- One native converted by the program, in front of a run. -/
theorem converts_cons {k : Nat} {ns met : List NativeId} {p r q : Pool} {id : EntryId}
    {ids : List EntryId}
    (hparts : ∀ ns p ids q, (ns.mapM (s.convertWithin k)).Yields p ids q →
      ∃ met, s.Converts ns p met ids q)
    (hid : (s.convertWithin (k + 1) n).Yields p id r) (hrest : s.Converts ns r met ids q) :
    ∃ met, s.Converts (n :: ns) p met (id :: ids) q := by
  by_cases hb : s.IsBasic n
  · obtain ⟨kind, hn⟩ := hb
    simp only [convertWithin, hn] at hid
    obtain ⟨c, hc, rfl, rfl⟩ := yields_scalar.1 hid
    exact ⟨met, .basic hn hc hrest⟩
  · rw [convertWithin_succ hb] at hid
    cases hslot : p.slot n with
    | none =>
      -- begun now; its parts are a run within the smaller budget
      obtain ⟨r₁, hshape, rfl⟩ := (yields_memoized_of_unmet hslot).1 hid
      obtain ⟨parts, r₀, hedges, hasm⟩ := (s.yields_shape).1 hshape
      obtain ⟨inner, hinner⟩ := hparts _ _ _ _ hedges
      exact ⟨_, .fresh hb hslot hinner (assembles_of_yields hb hinner.length_eq hasm) hrest⟩
    | some slot =>
      cases slot with
      | done t =>
        obtain ⟨rfl, rfl⟩ := (yields_memoized_of_done hslot).1 hid
        exact ⟨met, .known hb hslot hrest⟩
      | inProgress =>
        obtain ⟨rfl, rfl⟩ := (yields_memoized_of_inProgress hslot).1 hid
        exact ⟨met, .pending hb hslot hrest⟩

/-- **Every conversion of the program that succeeds is a run.**  By induction on the budget, and
for one budget along the list. -/
theorem converts_of_yields (k : Nat) (ns : List NativeId) (p : Pool) (ids : List EntryId)
    (q : Pool) (h : (ns.mapM (s.convertWithin k)).Yields p ids q) :
    ∃ met, s.Converts ns p met ids q := by
  induction k generalizing ns p ids q with
  | zero =>
    cases ns with
    | nil =>
      obtain ⟨rfl, rfl⟩ := yields_mapM_nil.1 h
      exact ⟨[], .nil _⟩
    | cons n ns =>
      -- without a budget nothing is converted
      obtain ⟨id, r, rest, hid, _, _⟩ := yields_mapM_cons.1 h
      exact absurd hid not_yields_throw
  | succ k ih =>
    induction ns generalizing p ids with
    | nil =>
      obtain ⟨rfl, rfl⟩ := yields_mapM_nil.1 h
      exact ⟨[], .nil _⟩
    | cons n ns ihns =>
      obtain ⟨id, r, rest, hid, hrest, rfl⟩ := yields_mapM_cons.1 h
      obtain ⟨met, hmet⟩ := ihns r rest hrest
      exact converts_cons ih hid hmet

/-! ## §4. What a run leaves. -/

/-- **A run leaves the natives in progress as they were.** -/
theorem Converts.advances {ns met : List NativeId} {p q : Pool} {ids : List EntryId}
    (h : s.Converts ns p met ids q) : p.Advances q := by
  induction h with
  | nil p => exact Pool.Advances.refl p
  | basic _ _ _ ih => exact ih
  | known _ _ _ ih => exact ih
  | pending _ _ _ ih => exact (Pool.Advances.intern _ _).trans ih
  | fresh _ hslot _ ht _ ihparts ihrest =>
    exact (Pool.Advances.finish hslot ihparts ht.advances.toGrows ht.slot_eq).trans ihrest

/-- **The natives met are those that got a slot.** -/
theorem Converts.mem_met_iff {ns met : List NativeId} {p q : Pool} {ids : List EntryId}
    (h : s.Converts ns p met ids q) (m : NativeId) :
    q.slot m ≠ none ↔ p.slot m ≠ none ∨ m ∈ met := by
  induction h with
  | nil p => simp
  | basic _ _ _ ih => exact ih
  | known _ _ _ ih => exact ih
  | pending _ _ _ ih => rw [ih, Pool.slot_intern]
  | @fresh n t ns p r r' inner parts met ids q _ hslot hparts ht _ ihparts ihrest =>
    -- the slot of `n` is set at both ends; every other one is set inside or behind
    rw [ihrest]
    by_cases hm : m = n
    · subst hm
      rw [Pool.slot_finish_self]
      simp
    · rw [Pool.slot_finish_of_ne hm, ht.slot_eq, ihparts, Pool.slot_begin_of_ne hm]
      simp only [List.cons_append, List.mem_cons, List.mem_append, hm, false_or, or_assoc]

end Source

end RpcSchema
