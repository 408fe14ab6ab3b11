/-
  RpcSchema.Proofs.Manifest.Twins
  ───────────────────────────────
  **WHICH TYPES OF TWO DRAFTS ARE THE SAME.**

  Two drafts give their types ids in the order in which they meet them, so
  the ids of one say nothing about the other.  A named type is known by
  what it is declared under, and a shape by the types it is made of.  In
  tidy drafts this makes a type of one draft the twin of at most one type
  of the other.

  Main statements: `Twin.symm` and `Twin.unique`.
-/
import Mathlib.Data.List.Nodup
import RpcSchema.Proofs.Manifest.Tidy
import RpcSchema.Proofs.Native.Renaming

namespace RpcSchema

/-! ## §1. What named types are known by. -/

/-- What a named type is known by. -/
inductive Title where
  | error
  | declared (name : String)
  | foreign (package name : String)
  deriving DecidableEq, Repr

namespace Draft

/-- The named type of a title. -/
def find? (d : Draft) : Title → Option NativeId
  | .error => some .error
  | .declared name => d.lookup? name
  | .foreign package name => d.foreigns.lookup (package, name)

variable {d e : Draft} {t t' : Title} {n m m' : NativeId}

/-- Where in the draft a named type is listed. -/
theorem mem_of_find (h : d.find? t = some n) :
    t = .error ∧ n = .error ∨ (∃ name, t = .declared name ∧ (name, n) ∈ d.declared) ∨
      ∃ package name, t = .foreign package name ∧ ((package, name), n) ∈ d.foreigns := by
  cases t with
  | error => exact Or.inl ⟨rfl, (Option.some.inj h).symm⟩
  | declared name => exact Or.inr (Or.inl ⟨name, rfl, Sequence.mem_of_lookup h⟩)
  | foreign package name => exact Or.inr (Or.inr ⟨package, name, rfl, Sequence.mem_of_lookup h⟩)

/-- What has a title has a name. -/
theorem Tidy.isNamed_of_find (h : d.Tidy) (hn : d.find? t = some n) :
    (d.types.kind n).isNamed = true := by
  rcases mem_of_find hn with ⟨_, rfl⟩ | ⟨name, _, hmem⟩ | ⟨package, name, _, hmem⟩
  · rw [show NativeId.error = .entry 18 from rfl, h.builtin 18 (by decide)]
    rfl
  · exact h.declared _ hmem
  · exact h.foreigns _ hmem

/-- **No type has two titles.** -/
theorem Tidy.title_unique (h : d.Tidy) (hn : d.find? t = some n) (hn' : d.find? t' = some n) :
    t = t' := by
  obtain ⟨herror, hnodup⟩ := List.nodup_cons.1 h.apart
  obtain ⟨hdeclared, hforeigns, hdisjoint⟩ := List.nodup_append.1 hnodup
  have hdeclaredId : ∀ {name n}, (name, n) ∈ d.declared → n ∈ d.declared.map (·.2) :=
    fun hmem => List.mem_map.2 ⟨_, hmem, rfl⟩
  have hforeignId : ∀ {key n}, (key, n) ∈ d.foreigns → n ∈ d.foreigns.map (·.2) :=
    fun hmem => List.mem_map.2 ⟨_, hmem, rfl⟩
  -- on both sides one of three kinds of title, and the lists share no id
  rcases mem_of_find hn with ⟨rfl, rfl⟩ | ⟨name, rfl, hmem⟩ | ⟨package, name, rfl, hmem⟩
  · rcases mem_of_find hn' with ⟨rfl, _⟩ | ⟨name', _, hmem'⟩ | ⟨package', name', _, hmem'⟩
    · rfl
    · exact absurd (List.mem_append_left _ (hdeclaredId hmem')) herror
    · exact absurd (List.mem_append_right _ (hforeignId hmem')) herror
  · rcases mem_of_find hn' with ⟨_, rfl⟩ | ⟨name', rfl, hmem'⟩ | ⟨package', name', _, hmem'⟩
    · exact absurd (List.mem_append_left _ (hdeclaredId hmem)) herror
    · rw [(Prod.mk.inj (List.inj_on_of_nodup_map hdeclared hmem hmem' rfl)).1]
    · exact absurd rfl (hdisjoint n (hdeclaredId hmem) n (hforeignId hmem'))
  · rcases mem_of_find hn' with ⟨_, rfl⟩ | ⟨name', _, hmem'⟩ | ⟨package', name', rfl, hmem'⟩
    · exact absurd (List.mem_append_right _ (hforeignId hmem)) herror
    · exact absurd rfl (hdisjoint n (hdeclaredId hmem') n (hforeignId hmem))
    · have hkey := (Prod.mk.inj (List.inj_on_of_nodup_map hforeigns hmem hmem' rfl)).1
      rw [(Prod.mk.inj hkey).1, (Prod.mk.inj hkey).2]

/-! ## §2. Twins. -/

/-- `n` in `d` and `m` in `e` are the same type: they have one title, or they are shapes that
match. -/
inductive Twin (d e : Draft) : NativeId → NativeId → Prop
  | named (t : Title) {n m : NativeId} (hn : d.find? t = some n) (hm : e.find? t = some m) :
      Twin d e n m
  | shape {n m : NativeId} (hn : d.types.Has n) (hm : e.types.Has m)
      (hname : (d.types.kind n).isNamed = false)
      (hskeleton : skeleton (d.types.kind n) = skeleton (e.types.kind m))
      (hparts : ∀ x ∈ (mentions (d.types.kind n)).zip (mentions (e.types.kind m)),
        Twin d e x.1 x.2) : Twin d e n m

/-- Kinds with one skeleton both have names or both have none. -/
theorem isNamed_eq_of_skeleton {k k' : NativeKind} (h : skeleton k = skeleton k') :
    k.isNamed = k'.isNamed := by
  have hskeleton : ∀ k : NativeKind, (skeleton k).isNamed = k.isNamed := by
    intro k
    cases k <;> rfl
  rw [← hskeleton k, h, hskeleton]

theorem twin_of_matches (hn : d.types.Has n) (hm : e.types.Has m)
    (hname : (d.types.kind n).isNamed = false)
    (h : Matches (Twin d e) (d.types.kind n) (e.types.kind m)) : Twin d e n m :=
  .shape hn hm hname h.1 fun _ hx => (List.forall₂_iff_zip.1 h.2).2 hx

/-- Twins that are shapes match. -/
theorem Twin.matches (hd : d.Tidy) (h : Twin d e n m) (hname : (d.types.kind n).isNamed = false) :
    Matches (Twin d e) (d.types.kind n) (e.types.kind m) := by
  cases h with
  | named t hn _ =>
    rw [hd.isNamed_of_find hn] at hname
    cases hname
  | shape _ _ _ hskeleton hparts =>
    exact ⟨hskeleton, List.forall₂_iff_zip.2 ⟨length_mentions hskeleton, fun hx => hparts _ hx⟩⟩

/-- Twins are so both ways. -/
theorem Twin.symm (h : Twin d e n m) : Twin e d m n := by
  induction h with
  | named t hn hm => exact .named t hm hn
  | @shape n m hn hm hname hskeleton _ ih =>
    refine .shape hm hn ((isNamed_eq_of_skeleton hskeleton).symm.trans hname) hskeleton.symm
      fun x hx => ?_
    have hparts : List.Forall₂ (fun n m => Twin e d m n) (mentions (d.types.kind n))
        (mentions (e.types.kind m)) :=
      List.forall₂_iff_zip.2 ⟨length_mentions hskeleton, fun hy => ih _ hy⟩
    exact (List.forall₂_iff_zip.1 hparts.flip).2 hx

theorem Twin.has_left (hd : d.Tidy) (h : Twin d e n m) : d.types.Has n := by
  cases h with
  | named t hn _ => exact has_of_isNamed (hd.isNamed_of_find hn)
  | shape hn _ _ _ _ => exact hn

/-- **A type has one twin.**  Shapes are made of types that each have one, and stand there
once. -/
theorem Twin.unique (hd : d.Tidy) (he : e.Tidy) (h : Twin d e n m) (h' : Twin d e n m') :
    m = m' := by
  -- on one pair of twins; shapes are the same if their parts have the same twins
  induction h generalizing m' with
  | @named t n m hn hm =>
    cases h' with
    | named t' hn' hm' =>
      obtain rfl := hd.title_unique hn hn'
      exact Option.some.inj (hm.symm.trans hm')
    | shape _ _ hname _ _ =>
      rw [hd.isNamed_of_find hn] at hname
      cases hname
  | @shape n m hn hm hname hskeleton _ ih =>
    have hmatch' := h'.matches hd hname
    have hmatch : Matches (fun n m => ∀ m', Twin d e n m' → m = m') (d.types.kind n)
        (e.types.kind m) :=
      ⟨hskeleton, List.forall₂_iff_zip.2 ⟨length_mentions hskeleton, fun hx _ => ih _ hx⟩⟩
    have hkind : e.types.kind m = e.types.kind m' :=
      hmatch.unique hmatch' fun _ _ _ hx hy => hx _ hy
    exact he.single m m' hm ((isNamed_eq_of_skeleton hskeleton).symm.trans hname) hkind

end Draft

end RpcSchema
