/-
  RpcSchema.Proofs.Native.Isomorphism
  ───────────────────────────────────
  **UNIVERSES THAT DIFFER IN THEIR IDS ONLY.**

  A renumbering of native types takes one universe to another when every
  type of the one is, with its ids renamed, the corresponding type of the
  other.  Whatever is asked of a universe then has the same answer, up to
  the ids it mentions.

  Main statements: `spell`, `deref`, `isError` and `methodSet` of
  `Universe.Iso`.
-/
import RpcSchema.Native.MethodSet
import RpcSchema.Native.Spelling
import RpcSchema.Proofs.Graph.Contraction
import RpcSchema.Proofs.Native.Formation
import RpcSchema.Proofs.Native.Renaming

namespace RpcSchema

/-! ## §1. Renumberings. -/

/-- `f` takes the types of `u` to those of `v`. -/
structure Universe.Iso (f : NativeId → NativeId) (u v : Universe) : Prop where
  injective : Function.Injective f
  undefined : f .undefined = .undefined
  size : v.size = u.size
  kind : ∀ n, v.kind (f n) = rename f (u.kind n)

namespace Universe.Iso

variable {f : NativeId → NativeId} {u v : Universe} {n : NativeId}

theorem undefined_iff (h : u.Iso f v) : f n = .undefined ↔ n = .undefined := by
  rw [← h.injective.eq_iff (a := n), h.undefined]

theorem exists_entry (h : u.Iso f v) (i : Nat) : ∃ j, f (.entry i) = .entry j := by
  cases hj : f (.entry i) with
  | undefined => cases h.undefined_iff.1 hj
  | entry j => exact ⟨j, rfl⟩

theorem isNamed (h : u.Iso f v) (n : NativeId) : (v.kind (f n)).isNamed = (u.kind n).isNamed := by
  rw [h.kind]
  cases u.kind n <;> rfl

theorem named? (h : u.Iso f v) (n : NativeId) : v.named? (f n) = (u.named? n).map (rename f) := by
  unfold Universe.named?
  rw [h.kind]
  cases u.kind n <;> rfl

/-- What a type stands for is taken along. -/
theorem underlying (h : u.Iso f v) (n : NativeId) : v.underlying (f n) = f (u.underlying n) := by
  unfold Universe.underlying
  rw [h.kind]
  cases u.kind n with
  | named decl =>
    show (if f decl.underlying = .undefined then _ else f decl.underlying) = _
    by_cases hu : decl.underlying = .undefined
    · simp only [hu, h.undefined, if_true]
    · simp only [hu, mt h.undefined_iff.1 hu, if_false]
  | _ => rfl

/-- The end of a chain of pointers is renamed. -/
theorem derefWithin (h : u.Iso f v) (k : Nat) (n : NativeId) :
    v.derefWithin k (f n) = f (u.derefWithin k n) := by
  induction k generalizing n with
  | zero => rfl
  | succ k ih =>
    unfold Universe.derefWithin
    rw [h.kind]
    cases u.kind n with
    | pointer elem => exact ih elem
    | _ => rfl

theorem deref (h : u.Iso f v) (n : NativeId) : v.deref (f n) = f (u.deref n) := by
  unfold Universe.deref
  rw [h.size, h.derefWithin]

/-- The builtin error is taken to itself. -/
theorem isError (h : u.Iso f v) (n : NativeId) : v.isError (f n) = u.isError n := by
  unfold Universe.isError
  rw [h.kind]
  cases u.kind n with
  | named decl =>
    simp only [rename_named, rename_name, rename_package, rename_underlying, h.kind]
    cases u.kind decl.underlying <;> rfl
  | _ => rfl

/-! ## §2. Spelling. -/

/-- A type with other ids is written with the types that these stand for. -/
theorem spelledWith_rename (f : NativeId → NativeId) (text : NativeId → String) (k : NativeKind) :
    (rename f k).spelledWith text = k.spelledWith (text ∘ f) := by
  -- only the shapes with lists of parts need an argument
  cases k with
  | interface shape =>
    have hembedded : (rename f shape.embedded).map text = shape.embedded.map (text ∘ f) :=
      List.map_map
    have hmethods : (rename f shape.methods).map (·.name ++ "()")
        = shape.methods.map (·.name ++ "()") :=
      List.map_map
    show (if (rename f shape.methods).isEmpty && (rename f shape.embedded).isEmpty then _
      else "interface\x7b " ++ String.intercalate "; " ((rename f shape.embedded).map text
        ++ (rename f shape.methods).map (·.name ++ "()")) ++ " \x7d") = _
    rw [hembedded, hmethods, show (rename f shape.methods).isEmpty = shape.methods.isEmpty from
        List.isEmpty_map, show (rename f shape.embedded).isEmpty = shape.embedded.isEmpty from
        List.isEmpty_map]
    rfl
  | struct fields =>
    have hfields : (rename f fields).map (fun a : Field =>
          (if a.embedded then "" else a.name ++ " ") ++ text a.type)
        = fields.map fun a : Field =>
          (if a.embedded then "" else a.name ++ " ") ++ text (f a.type) :=
      List.map_map
    exact congrArg (fun l => "struct\x7b" ++ String.intercalate "; " l ++ "\x7d") hfields
  | tuple elems =>
    have helems : (rename f elems).map text = elems.map (text ∘ f) := List.map_map
    exact congrArg (fun l => "(" ++ String.intercalate ", " l ++ ")") helems
  | _ => rfl

/-- **Types are spelled alike.**  The spelling mentions names only. -/
theorem spellWithin (h : u.Iso f v) (k : Nat) (n : NativeId) :
    v.spellWithin k (f n) = u.spellWithin k n := by
  -- on the levels; the parts are spelled alike with one less
  induction k generalizing n with
  | zero =>
    cases n with
    | undefined => rw [h.undefined]; rfl
    | entry i =>
      obtain ⟨j, hj⟩ := h.exists_entry i
      rw [hj]
      rfl
  | succ k ih =>
    cases n with
    | undefined => rw [h.undefined]; rfl
    | entry i =>
      obtain ⟨j, hj⟩ := h.exists_entry i
      have hkind := h.kind (.entry i)
      rw [hj] at hkind ⊢
      rw [spellWithin_succ, spellWithin_succ, hkind, spelledWith_rename]
      exact NativeKind.spelledWith_congr fun m _ => ih m

theorem spell (h : u.Iso f v) (n : NativeId) : v.spell (f n) = u.spell n := by
  unfold Universe.spell
  rw [h.size, h.spellWithin]

/-! ## §3. Method sets. -/

/-- Embedded types are taken along, in their order. -/
theorem embeds (h : u.Iso f v) (n : NativeId) : v.embeds (f n) = (u.embeds n).map f := by
  unfold Universe.embeds
  rw [h.kind]
  cases u.kind n with
  | named decl =>
    simp only [rename_named, rename_underlying, h.kind]
    cases u.kind decl.underlying <;> rfl
  | _ => rfl

theorem ownMethods (h : u.Iso f v) (n : NativeId) :
    v.ownMethods (f n) = (u.ownMethods n).map (rename f) := by
  unfold Universe.ownMethods
  rw [h.kind]
  cases u.kind n with
  | named decl =>
    simp only [rename_named, rename_underlying, rename_methods, h.kind, h.undefined_iff]
    by_cases hu : decl.underlying = .undefined
    · simp only [hu, if_true, List.map_nil]
    · simp only [hu, if_false]
      cases u.kind decl.underlying <;> rfl
  | _ => rfl

theorem embeddingOrder (h : u.Iso f v) (n : NativeId) :
    v.embeddingOrder (f n) = (u.embeddingOrder n).map f := by
  show Graph.order v.embeds v.ids ([n].map f) = _
  exact Graph.order_map (S := fun _ => True) u.embeds_of_not_mem_ids v.embeds_of_not_mem_ids
    (fun _ _ _ _ => trivial) (fun _ _ _ _ hab => h.injective hab) (fun a _ => h.embeds a)
    fun _ _ => trivial

/-- **The method sets are the same, up to ids in signatures.** -/
theorem methodSet (h : u.Iso f v) (n : NativeId) :
    v.methodSet (f n) = (u.methodSet n).map (rename f) := by
  -- the three steps of a method set, each of which looks at names only
  have hown : (v.embeddingOrder (f n)).flatMap v.ownMethods
      = ((u.embeddingOrder n).flatMap u.ownMethods).map (rename f) := by
    rw [h.embeddingOrder, List.flatMap_map, List.map_flatMap]
    exact List.flatMap_congr fun m _ => h.ownMethods m
  have hsort : ∀ l : List Method, (Sequence.sortBy (·.name) l).map (rename f)
      = Sequence.sortBy (·.name) (l.map (rename f)) := Sequence.map_sortBy fun _ => rfl
  have hkeep : ∀ l : List Method, (Sequence.keepFirst (·.name) l).map (rename f)
      = Sequence.keepFirst (·.name) (l.map (rename f)) := Sequence.map_keepFirst fun _ => rfl
  unfold Universe.methodSet
  rw [hown, hsort, hkeep]

end Universe.Iso

end RpcSchema
