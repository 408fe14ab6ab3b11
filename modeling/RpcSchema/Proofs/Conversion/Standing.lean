/-
  RpcSchema.Proofs.Conversion.Standing
  ────────────────────────────────────
  **WHICH ENTRY STANDS FOR WHICH NATIVE.**

  An id stands for a native if it is the recorded result, a reference to
  the native, or the scalar of a basic kind.  A finished native is built
  if its entry has the shape of the native and its parts stand for the
  parts of the native; this is what one conversion establishes, while
  references may still be open.

  Main statements: `Stands.mono` and `Built.mono` (both last while the
  pool grows), `Converts.returned` (the ids of a run stand for its
  natives) and `Assembles.built`.
-/
import Mathlib.Data.List.Forall2
import RpcSchema.Proofs.Conversion.Run
import RpcSchema.Proofs.Pool.Resolution

namespace RpcSchema

/-! ## §1. Standing for a native. -/

/-- Lists that agree place by place have one image. -/
theorem forall₂_map_eq {α β γ : Type} {R : α → β → Prop} {f : α → γ} {g : β → γ}
    (h : ∀ a b, R a b → f a = g b) {l : List α} {l' : List β} (hl : List.Forall₂ R l l') :
    l.map f = l'.map g := by
  have hmaps : List.Forall₂ (· = ·) (l.map f) (l'.map g) :=
    List.forall₂_map_left_iff.2 (List.forall₂_map_right_iff.2 (hl.imp h))
  rwa [List.forall₂_eq_eq_eq] at hmaps

/-- Of two lists that agree, each on the left has one on the right. -/
theorem exists_right_of_mem {α β : Type} {R : α → β → Prop} {as : List α} {bs : List β} {a : α}
    (h : List.Forall₂ R as bs) (ha : a ∈ as) : ∃ b ∈ bs, R a b := by
  induction h with
  | nil => exact absurd ha List.not_mem_nil
  | @cons a' b as bs hab _ ih =>
    rcases List.mem_cons.1 ha with rfl | ha
    · exact ⟨b, List.mem_cons_self, hab⟩
    · obtain ⟨c, hc, hac⟩ := ih ha
      exact ⟨c, List.mem_cons_of_mem b hc, hac⟩

theorem exists_left_of_mem {α β : Type} {R : α → β → Prop} {as : List α} {bs : List β} {b : β}
    (h : List.Forall₂ R as bs) (hb : b ∈ bs) : ∃ a ∈ as, R a b :=
  exists_right_of_mem h.flip hb

namespace Source

variable (s : Source)

/-- The id `t` stands for the native `n`. -/
inductive Stands (p : Pool) (n : NativeId) (t : EntryId) : Prop
  | scalar {kind c} (hn : s.types.kind n = .basic kind) (hc : kind.scalar? = some c)
      (ht : t = .scalar c)
  | done (hb : ¬ s.IsBasic n) (hslot : p.slot n = some (.done t))
  | reference (hb : ¬ s.IsBasic n) (ht : p.entry t = .reference n)

/-- The id `t` stands for the native `n`, and refers to it only if it is in progress: what the
conversion of `n` returns. -/
inductive Returned (p : Pool) (n : NativeId) (t : EntryId) : Prop
  | scalar {kind c} (hn : s.types.kind n = .basic kind) (hc : kind.scalar? = some c)
      (ht : t = .scalar c)
  | done (hb : ¬ s.IsBasic n) (hslot : p.slot n = some (.done t))
  | pending (hb : ¬ s.IsBasic n) (ht : p.entry t = .reference n)
      (hslot : p.slot n = some .inProgress)

variable {s} {p q : Pool} {n : NativeId} {t : EntryId}

/-- What stands for a native does so while the pool grows. -/
theorem Stands.mono (hg : p.Grows q) (h : s.Stands p n t) : s.Stands q n t := by
  cases h with
  | scalar hn hc ht => exact .scalar hn hc ht
  | done hb hslot => exact .done hb (hg.done n t hslot)
  | reference hb ht => exact .reference hb (by rw [hg.entry_of_ne_any (by simp [ht]), ht])

/-- What was returned counts as returned while the pool advances. -/
theorem Returned.mono (ha : p.Advances q) (h : s.Returned p n t) : s.Returned q n t := by
  cases h with
  | scalar hn hc ht => exact .scalar hn hc ht
  | done hb hslot => exact .done hb (ha.done n t hslot)
  | pending hb ht hslot =>
    exact .pending hb (by rw [ha.entry_of_ne_any (by simp [ht]), ht]) (ha.inProgress n hslot)

/-- What is returned stands for the native. -/
theorem Returned.stands (h : s.Returned p n t) : s.Stands p n t := by
  cases h with
  | scalar hn hc ht => exact .scalar hn hc ht
  | done hb hslot => exact .done hb hslot
  | pending hb ht _ => exact .reference hb ht

theorem forall₂_stands_mono (hg : p.Grows q) {ns : List NativeId} {ids : List EntryId}
    (h : List.Forall₂ (s.Stands p) ns ids) : List.Forall₂ (s.Stands q) ns ids :=
  h.imp fun _ _ hst => hst.mono hg

/-- **The ids of a run stand for its natives.** -/
theorem Converts.returned {ns met : List NativeId} {ids : List EntryId}
    (h : s.Converts ns p met ids q) : List.Forall₂ (s.Returned q) ns ids := by
  induction h with
  | nil p => exact List.Forall₂.nil
  | basic hn hc _ ih => exact List.Forall₂.cons (.scalar hn hc rfl) ih
  | @known n t ns p met ids q hb hslot hrest ih =>
    exact List.Forall₂.cons (.done hb (hrest.advances.done n t hslot)) ih
  | @pending n ns p met ids q hb hslot hrest ih =>
    -- still in progress at the end, because a run leaves that as it was
    have hnow : s.Returned (p.intern (.reference n)).2 n (p.intern (.reference n)).1 :=
      .pending hb (Pool.entry_intern p _) (by rw [Pool.slot_intern]; exact hslot)
    exact List.Forall₂.cons (hnow.mono hrest.advances) ih
  | @fresh n t ns p r r' inner parts met ids q hb _ _ _ hrest _ ih =>
    have hnow : (r'.finish n t).slot n = some (.done t) := Pool.slot_finish_self r' n t
    exact List.Forall₂.cons (.done hb (hrest.advances.done n t hnow)) ih

/-! ## §2. Built natives. -/

variable (s)

/-- The entry `t` has the shape of the native `n`, and its parts stand for the parts of `n`. -/
inductive Built (p : Pool) (n : NativeId) (t : EntryId) : Prop
  | pointer {elem} (hn : s.types.kind n = .pointer elem) (ht : s.Stands p elem t)
  | slice {elem x} (hn : s.types.kind n = .slice elem) (ht : p.entry t = .array x)
      (hx : s.Stands p elem x)
  | map {key value x y} (hn : s.types.kind n = .map key value) (ht : p.entry t = .map x y)
      (hx : s.Stands p key x) (hy : s.Stands p value y)
      (hkey : ∃ z, p.Leads x z ∧ isKey (p.entry z) = true)
  | any (hn : s.IsInterface n) (hempty : s.types.methodSet n = []) (ht : t = .any)
  | error (hn : s.types.isError n = true) (ht : p.entry t = .optional (.scalar .string))
  | struct {decl fs ids} (hn : s.Declares n decl (.struct fs))
      (ht : p.entry t = .definition (.message decl.name
        (List.zipWith (fun f id => ⟨f.name, id⟩) (s.shownFields decl fs) ids)))
      (hids : List.Forall₂ (s.Stands p) ((s.shownFields decl fs).map (·.type)) ids)
  | interface {decl asked ids} (hn : s.Declares n decl (.interface asked))
      (hasks : s.types.methodSet n ≠ [])
      (ht : p.entry t = .definition (.interface decl.name ids))
      (hids : List.Forall₂ (s.Stands p) (s.package.implementations n) ids)
  | enum {decl kind e} (hn : s.Declares n decl (.basic kind)) (he : s.enums.lookup n = some e)
      (ht : p.entry t = .definition e.definition)
  | scalar {decl kind c} (hn : s.Declares n decl (.basic kind)) (he : s.enums.lookup n = none)
      (hc : kind.scalar? = some c) (ht : t = .scalar c)
  | through {decl shape} (hn : s.Declares n decl shape) (hc : shape.isContainer = true)
      (ht : s.Stands p decl.underlying t)
  | lifted {decl shape x} (hn : s.Declares n decl shape) (hc : shape.isContainer = true)
      (hhas : p.Has x) (hx : s.Stands p decl.underlying x)
      (ht : p.entry t = .definition (.message decl.name [⟨closingField (p.entry x), x⟩]))

variable {s}

/-- **What was built stays built**, in every pool that grew from the first. -/
theorem Built.mono (hg : p.Grows q) (h : s.Built p n t) : s.Built q n t := by
  -- what an entry is stays what it is
  have hkeep : ∀ id e, p.entry id = e → e ≠ .any → q.entry id = e := by
    intro id e hid he
    rw [hg.entry_of_ne_any (by rw [hid]; exact he), hid]
  -- each shape is an entry of the pool, and entries do not change
  cases h with
  | pointer hn ht => exact .pointer hn (ht.mono hg)
  | slice hn ht hx => exact .slice hn (hkeep _ _ ht (by simp)) (hx.mono hg)
  | map hn ht hx hy hkey =>
    -- a key is no missing entry, so it stays what it is
    obtain ⟨z, hz, hk⟩ := hkey
    have hne : p.entry z ≠ .any := by
      intro he
      rw [he] at hk
      cases hk
    refine .map hn (hkeep _ _ ht (by simp)) (hx.mono hg) (hy.mono hg) ⟨z, hz.mono hg, ?_⟩
    rw [hg.entry_of_ne_any hne]
    exact hk
  | any hn hempty ht => exact .any hn hempty ht
  | error hn ht => exact .error hn (hkeep _ _ ht (by simp))
  | struct hn ht hids =>
    exact .struct hn (hkeep _ _ ht (by simp)) (forall₂_stands_mono hg hids)
  | interface hn hasks ht hids =>
    exact .interface hn hasks (hkeep _ _ ht (by simp)) (forall₂_stands_mono hg hids)
  | enum hn he ht => exact .enum hn he (hkeep _ _ ht (by simp))
  | scalar hn he hc ht => exact .scalar hn he hc ht
  | through hn hc ht => exact .through hn hc (ht.mono hg)
  | lifted hn hc hhas hx ht =>
    refine .lifted hn hc (hg.has hhas) (hx.mono hg) ?_
    rw [hg.entry_eq _ hhas]
    exact hkeep _ _ ht (by simp)

/-- **What is assembled from parts that stand for the parts of a native is built.** -/
theorem Assembles.built {r r' : Pool} {ids : List EntryId} (h : s.Assembles n r ids t r')
    (hids : List.Forall₂ (s.Stands r) (s.edges n) ids)
    (hhas : ∀ m id, s.Stands r m id → r.Has id) : s.Built r' n t := by
  have hg : r.Grows r' := h.advances.toGrows
  have hids' := forall₂_stands_mono hg hids
  cases h with
  | pointer hn =>
    rw [edges_pointer hn] at hids'
    exact .pointer hn (List.forall₂_cons.1 hids').1
  | slice hn =>
    rw [edges_slice hn] at hids'
    exact .slice hn (Pool.entry_intern r _) (List.forall₂_cons.1 hids').1
  | @map key value x y hn hkey =>
    rw [edges_map hn] at hids'
    obtain ⟨hx, hrest⟩ := List.forall₂_cons.1 hids'
    have hne : r.entry (r.resolve x) ≠ .any := by
      intro he
      rw [Pool.resolved, he] at hkey
      cases hkey
    refine .map hn (Pool.entry_intern r _) hx (List.forall₂_cons.1 hrest).1
      ⟨r.resolve x, (r.leads_resolve x).mono hg, ?_⟩
    rw [hg.entry_of_ne_any hne]
    exact hkey
  | any hn hempty => exact .any hn hempty rfl
  | error hn => exact .error hn (Pool.entry_intern r _)
  | struct hn =>
    rw [edges_struct hn] at hids'
    exact .struct hn (Pool.entry_push r _) hids'
  | interface hn hasks =>
    rw [edges_interface hn] at hids'
    exact .interface hn hasks (Pool.entry_push r _) hids'
  | enum hn he => exact .enum hn he (Pool.entry_push r _)
  | scalar hn he hc => exact .scalar hn he hc rfl
  | through hn hc =>
    rw [edges_container hn hc] at hids'
    exact .through hn hc (List.forall₂_cons.1 hids').1
  | lifted hn hc =>
    -- the name of the field is read off the pool before the message is added
    rw [edges_container hn hc] at hids hids'
    have hx := hhas _ _ (List.forall₂_cons.1 hids).1
    refine .lifted hn hc (hg.has hx) (List.forall₂_cons.1 hids').1 ?_
    rw [hg.entry_eq _ hx]
    exact Pool.entry_push r _

end Source

end RpcSchema
