/-
  RpcSchema.Proofs.Native.Flattening
  ──────────────────────────────────
  **THE METHOD SET OF A TYPE.**

  A named interface takes over the methods of its shape, a shape those of
  the types it embeds; the embeddings may nest in any way and lead back to
  where they came from.  A shape contributes the methods it lists, a named
  type that is no interface the methods it declares.

  The method set has one method for every name that is contributed by a
  type on the way: the first one on the depth-first walk, which comes by a
  shape before the types it embeds, and by each type once.

  Main statements: `name_mem_methodSet_iff` (which names), and
  `mem_methodSet_iff` (which method of a name).
-/
import RpcSchema.Proofs.Graph.Descent
import RpcSchema.Proofs.Native.Formation

namespace RpcSchema.Universe

variable {u : Universe} {n t : NativeId} {m : Method}

/-! ## §1. Embeddings, and what a type contributes. -/

/-- A type takes over the methods of another one. -/
inductive Embedding (u : Universe) (n : NativeId) : NativeId → Prop
  | shape {decl : NamedType} {asked : InterfaceShape} (hn : u.kind n = .named decl)
      (hs : u.kind decl.underlying = .interface asked) : Embedding u n decl.underlying
  | embedded {asked : InterfaceShape} {t : NativeId} (hn : u.kind n = .interface asked)
      (ht : t ∈ asked.embedded) : Embedding u n t

/-- A type contributes a method of its own. -/
inductive Contributes (u : Universe) (n : NativeId) (m : Method) : Prop
  | listed {asked : InterfaceShape} (hn : u.kind n = .interface asked) (hm : m ∈ asked.methods)
  | declared {decl : NamedType} (hn : u.kind n = .named decl)
      (hdefined : decl.underlying ≠ .undefined)
      (hs : ∀ asked, u.kind decl.underlying ≠ .interface asked) (hm : m ∈ decl.methods)

/-- Embeddings are the edges that the walk takes. -/
theorem embedding_iff : u.Embedding n t ↔ t ∈ u.embeds n := by
  unfold embeds
  constructor
  · intro h
    -- the kind underneath tells what is embedded
    cases h with
    | shape hn hs => simp [hn, hs]
    | embedded hn ht => simpa [hn] using ht
  · intro h
    split at h
    · rename_i decl hn
      split at h
      · rename_i asked hs
        rw [List.mem_singleton.1 h]
        exact .shape hn hs
      · exact absurd h List.not_mem_nil
    · rename_i asked hn
      exact .embedded hn h
    · exact absurd h List.not_mem_nil

/-- What a type contributes is what the walk collects from it. -/
theorem contributes_iff : u.Contributes n m ↔ m ∈ u.ownMethods n := by
  unfold ownMethods
  constructor
  · intro h
    cases h with
    | listed hn hm => simpa [hn] using hm
    | @declared decl hn hdefined hs hm =>
      simp only [hn, if_neg hdefined]
      exact hm
  · intro h
    split at h
    · rename_i decl hn
      split at h
      · exact absurd h List.not_mem_nil
      · -- a name for an interface contributes nothing itself: the interface does
        rename_i hdefined
        split at h
        · exact absurd h List.not_mem_nil
        · rename_i hs
          exact .declared hn hdefined hs h
    · rename_i asked hn
      exact .listed hn h
    · exact absurd h List.not_mem_nil

/-! ## §2. The method set. -/

/-- The types that contribute are those that embeddings lead to. -/
theorem mem_embeddingOrder_iff :
    t ∈ u.embeddingOrder n ↔ Relation.ReflTransGen u.Embedding n t := by
  have hstep : (fun a b => b ∈ u.embeds a) = u.Embedding := by
    funext a b
    exact propext embedding_iff.symm
  unfold embeddingOrder
  rw [Graph.mem_order_iff u.embeds_of_not_mem_ids, ← hstep]
  simp only [List.mem_singleton, exists_eq_left]
  rfl

/-- **Which names a method set has**: those of the methods that are contributed by a type that
embeddings lead to. -/
theorem name_mem_methodSet_iff {name : String} :
    name ∈ (u.methodSet n).map (·.name) ↔
      ∃ t m, Relation.ReflTransGen u.Embedding n t ∧ u.Contributes t m ∧ m.name = name := by
  rw [mem_methodSet_names]
  simp only [mem_embeddingOrder_iff, contributes_iff]
  constructor
  · intro h
    obtain ⟨t, ht, m, hm, hname⟩ := h
    exact ⟨t, m, ht, hm, hname⟩
  · intro h
    obtain ⟨t, m, ht, hm, hname⟩ := h
    exact ⟨t, ht, m, hm, hname⟩

/-- **Which method of a name it has**: the first one on the walk along embeddings. -/
theorem mem_methodSet_iff :
    m ∈ u.methodSet n ↔
      ((u.embeddingOrder n).flatMap u.ownMethods).find? (fun c => c.name = m.name) = some m := by
  unfold methodSet
  rw [Sequence.mem_sortBy, Sequence.mem_keepFirst_iff]

/-- The method set is listed by name. -/
theorem methodSet_ascends (u : Universe) (n : NativeId) :
    (u.methodSet n).Pairwise fun a b => a.name < b.name :=
  Sequence.sortBy_ascends _ (Sequence.keepFirst_nodup _ _)

end RpcSchema.Universe
