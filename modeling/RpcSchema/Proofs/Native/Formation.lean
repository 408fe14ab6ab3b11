/-
  RpcSchema.Proofs.Native.Formation
  ─────────────────────────────────
  **UNIVERSES THAT ARE BUILT FROM WHAT IS THERE.**

  A shape is only written down once the types it is made of are known, so
  every unnamed shape is made of older types, whatever names refer to each
  other.  A walk that does not pass through names goes down, and ends.

  The only named type without a package is the builtin `error`.

  Main statements: `Below.intern` (shapes are made of older types),
  `Formed.intern`, `Formed.declareNamed` and `Formed.modifyNamed` (what is
  built stays well-formed), `Layered.behind_iff` and `Layered.spelled_iff`
  (pointers are followed, and types spelled, as if there were no budget).
-/
import RpcSchema.Native.MethodSet
import RpcSchema.Native.Spelling
import RpcSchema.Proofs.Graph.Cycle
import RpcSchema.Proofs.Native.Entries
import RpcSchema.Proofs.Native.Renaming

namespace RpcSchema

/-! ## §1. Shapes of older types. -/

/-- The types that an unnamed shape is written with; the signatures of methods are not. -/
def NativeKind.components : NativeKind → List NativeId
  | .pointer elem | .slice elem => [elem]
  | .map key value => [key, value]
  | .interface shape => shape.embedded
  | .struct fields => fields.map (·.type)
  | .tuple elems => elems
  | .basic _ | .named _ => []

/-- The types that an unnamed shape mentions, in the signatures of methods too. -/
def NativeKind.stored (k : NativeKind) : List NativeId :=
  if k.isNamed then [] else mentions k

theorem NativeKind.stored_of_unnamed {k : NativeKind} (h : k.isNamed = false) :
    k.stored = mentions k := by
  rw [stored, h]
  rfl

/-- An unnamed shape mentions the types it is written with. -/
theorem NativeKind.mem_stored_of_component {k : NativeKind} {m : NativeId}
    (h : m ∈ k.components) : m ∈ k.stored := by
  -- each component is mentioned somewhere in the shape
  cases k with
  | basic kind => exact absurd h List.not_mem_nil
  | named decl => exact absurd h List.not_mem_nil
  | pointer elem => exact h
  | slice elem => exact h
  | map key value => exact h
  | interface shape =>
    refine List.mem_append_right _ (List.mem_flatMap.2 ⟨m, h, ?_⟩)
    exact List.mem_singleton_self m
  | struct fields =>
    obtain ⟨f, hf, rfl⟩ := List.mem_map.1 h
    exact List.mem_flatMap.2 ⟨f, hf, List.mem_singleton_self f.type⟩
  | tuple elems => exact List.mem_flatMap.2 ⟨m, h, List.mem_singleton_self m⟩

namespace Universe

/-- Of the types that `parts` reads off an entry, every one is older. -/
def Below (parts : NativeKind → List NativeId) (u : Universe) : Prop :=
  ∀ i m, m ∈ parts (u.kind (.entry i)) → ∃ j, j < i ∧ m = .entry j

variable {u : Universe}

section Below

variable {parts : NativeKind → List NativeId} {k : NativeKind}

/-- A pushed shape is made of older types if its parts were handed out. -/
theorem Below.push (h : u.Below parts) (hk : ∀ m ∈ parts k, u.Has m) : (u.push k).2.Below parts := by
  intro i m hm
  by_cases hi : NativeId.entry i = (u.push k).1
  · -- what is there is older than the last entry
    obtain rfl : i = u.size := NativeId.entry.inj hi
    rw [show (u.push k).2.kind (.entry u.size) = k from kind_push u k] at hm
    exact hk m hm
  · rw [kind_push_of_ne k hi] at hm
    exact h i m hm

theorem Below.intern (h : u.Below parts) (hk : ∀ m ∈ parts k, u.Has m) :
    (u.intern k).2.Below parts := by
  rcases u.intern_cases k with ⟨_, _, _, hi⟩ | ⟨_, hi⟩
  · rw [hi]
    exact h
  · rw [hi]
    exact h.push hk

/-- A declaration may change, if nothing is read off one. -/
theorem Below.modifyNamed (h : u.Below parts) (hnamed : ∀ decl, parts (.named decl) = [])
    (id : NativeId) (f : NamedType → NamedType) : (u.modifyNamed id f).Below parts := by
  intro i m hm
  rcases kind_modifyNamed u id f (.entry i) with hold | ⟨decl, _, hnew⟩
  · rw [hold] at hm
    exact h i m hm
  · rw [hnew, hnamed] at hm
    exact absurd hm List.not_mem_nil

end Below

/-- An unnamed shape is made of older types. -/
def Layered (u : Universe) : Prop :=
  u.Below NativeKind.components

/-- What an unnamed shape mentions is older than the shape. -/
def Ordered (u : Universe) : Prop :=
  u.Below NativeKind.stored

theorem Ordered.layered (h : u.Ordered) : u.Layered :=
  fun i m hm => h i m (NativeKind.mem_stored_of_component hm)

/-- The predeclared types mention older ones only. -/
theorem predeclared_ordered : predeclared.Ordered := by
  have hall : ∀ i < predeclared.size, ∀ m ∈ (predeclared.kind (.entry i)).stored,
      ∃ j < i, m = .entry j := by
    decide
  intro i m hm
  by_cases hi : i < predeclared.size
  · exact hall i hi m hm
  · rw [kind_of_size_le (Nat.not_lt.1 hi)] at hm
    exact absurd hm List.not_mem_nil

/-! ## §2. Well-formed universes. -/

/-- What holds of a universe that is built step by step. -/
structure Formed (u : Universe) : Prop where
  /-- An unnamed shape is made of older types. -/
  layered : ∀ i m, m ∈ (u.kind (.entry i)).components → ∃ j, j < i ∧ m = .entry j
  /-- Only the builtin named type has no package. -/
  owned : ∀ n decl, u.kind n = .named decl → n = .error ∨ decl.package ≠ none

theorem Formed.isLayered (h : u.Formed) : u.Layered :=
  h.layered

/-- What was not handed out embeds nothing. -/
theorem embeds_of_not_mem_ids (u : Universe) (n : NativeId) (h : n ∉ u.ids) :
    u.embeds n = [] := by
  have hkind : u.kind n = .tuple [] := by
    cases n with
    | undefined => rfl
    | entry i =>
      refine kind_of_size_le (Nat.not_lt.1 fun hi => h ?_)
      exact List.mem_map.2 ⟨i, List.mem_range.2 hi, rfl⟩
  simp [embeds, hkind]

/-- **The predeclared universe is well-formed.** -/
theorem predeclared_formed : predeclared.Formed where
  layered := predeclared_ordered.layered
  owned n decl hn := by
    obtain ⟨i, hi, rfl⟩ := has_of_named hn
    have hnamed : ∀ i < predeclared.size, (predeclared.kind (.entry i)).isNamed = true →
        i = 18 := by
      decide
    exact Or.inl (congrArg NativeId.entry (hnamed i hi (by rw [hn]; rfl)))

/-- An entry may be added whose parts are there, and that has a package if it has a name. -/
theorem Formed.push (h : u.Formed) {k : NativeKind} (hparts : ∀ m ∈ k.components, u.Has m)
    (hname : ∀ decl, k = .named decl → decl.package ≠ none) : (u.push k).2.Formed where
  layered := h.isLayered.push hparts
  owned n decl hn := by
    rcases named_push_cases hn with hold | ⟨_, hk⟩
    · exact h.owned n decl hold
    · exact Or.inr (hname decl hk)

/-- An unnamed shape may be interned whose parts are there. -/
theorem Formed.intern (h : u.Formed) {k : NativeKind} (hparts : ∀ m ∈ k.components, u.Has m)
    (hname : k.isNamed = false) : (u.intern k).2.Formed := by
  rcases u.intern_cases k with ⟨_, _, _, hi⟩ | ⟨_, hi⟩
  · rw [hi]
    exact h
  · rw [hi]
    refine h.push hparts fun decl hk => ?_
    rw [hk] at hname
    cases hname

/-- A universe stays well-formed when a name is declared. -/
theorem Formed.declareNamed (h : u.Formed) (name package : String) :
    (u.declareNamed name (some package)).2.Formed := by
  refine h.push (fun m hm => absurd hm List.not_mem_nil) fun decl hk => ?_
  cases hk
  simp

/-- The declaration of a named type may change, but for its package. -/
theorem Formed.modifyNamed (h : u.Formed) (id : NativeId) {f : NamedType → NamedType}
    (hf : ∀ decl, (f decl).package = decl.package) : (u.modifyNamed id f).Formed where
  layered := h.isLayered.modifyNamed (fun _ => rfl) id f
  owned n decl hn := by
    rcases kind_modifyNamed u id f n with hold | ⟨decl', hk, hnew⟩
    · rw [hold] at hn
      exact h.owned n decl hn
    · rw [hnew] at hn
      obtain rfl := NativeKind.named.inj hn
      rw [hf]
      exact h.owned n decl' hk

theorem Formed.setUnderlying (h : u.Formed) (id underlying : NativeId) :
    (u.setUnderlying id underlying).Formed :=
  h.modifyNamed id fun _ => rfl

theorem Formed.addMethod (h : u.Formed) (id : NativeId) (method : Method) :
    (u.addMethod id method).Formed :=
  h.modifyNamed id fun _ => rfl

/-! ## §3. Pointers. -/

/-- `n` is a pointer to `m`. -/
def PointerTo (u : Universe) (n m : NativeId) : Prop :=
  u.kind n = .pointer m

/-- Pointers lead from `n` to `m`, which is none. -/
structure Behind (u : Universe) (n m : NativeId) : Prop where
  leads : Relation.ReflTransGen u.PointerTo n m
  ends : ∀ elem, ¬ u.PointerTo m elem

/-- **Pointers are followed to the end**: each leads to an older type. -/
theorem Layered.behind_derefWithin (h : u.Layered) {i k : Nat} (hk : i < k) :
    u.Behind (.entry i) (u.derefWithin k (.entry i)) := by
  -- on the number of the entry, since a pointer points to an older one
  induction i using Nat.strongRecOn generalizing k with
  | _ i ih =>
    obtain ⟨k, rfl⟩ : ∃ j, k = j + 1 := ⟨k - 1, by omega⟩
    unfold derefWithin
    cases hkind : u.kind (.entry i) with
    | pointer elem =>
      obtain ⟨j, hj, rfl⟩ := h i elem (by simp [hkind, NativeKind.components])
      obtain ⟨hleads, hends⟩ := ih j hj (k := k) (by omega)
      exact ⟨.head hkind hleads, hends⟩
    | _ => exact ⟨.refl, fun elem helem => by cases hkind.symm.trans helem⟩

/-- Every budget that does not fall short of the types takes the walk to the end. -/
theorem Layered.behind_of_size_lt (h : u.Layered) {k : Nat} (hk : u.size < k) (n : NativeId) :
    u.Behind n (u.derefWithin k n) := by
  obtain ⟨k, rfl⟩ : ∃ j, k = j + 1 := ⟨k - 1, by omega⟩
  cases n with
  | undefined => exact ⟨.refl, fun elem helem => by cases helem⟩
  | entry i =>
    by_cases hi : i < u.size
    · exact h.behind_derefWithin (by omega)
    · -- what was never handed out is no pointer
      have hkind := kind_of_size_le (Nat.not_lt.1 hi)
      unfold derefWithin
      rw [hkind]
      exact ⟨.refl, fun elem helem => by cases hkind.symm.trans helem⟩

theorem PointerTo.unique (a b c : NativeId) (hb : u.PointerTo a b) (hc : u.PointerTo a c) :
    b = c :=
  NativeKind.pointer.inj (hb.symm.trans hc)

/-- There is one type behind pointers. -/
theorem Behind.unique {n a b : NativeId} (ha : u.Behind n a) (hb : u.Behind n b) : a = b :=
  Graph.end_unique PointerTo.unique ha.leads hb.leads ha.ends hb.ends

/-- **What is behind the pointers is what `deref` returns.** -/
theorem Layered.behind_iff (h : u.Layered) {n m : NativeId} : u.Behind n m ↔ m = u.deref n := by
  have hderef : u.Behind n (u.deref n) := h.behind_of_size_lt (Nat.lt_succ_self _) n
  constructor
  · exact fun hm => hm.unique hderef
  · rintro rfl
    exact hderef

theorem Formed.behind_deref (h : u.Formed) (n : NativeId) : u.Behind n (u.deref n) :=
  h.isLayered.behind_iff.2 rfl

theorem Formed.derefWithin_eq_deref (h : u.Formed) {k : Nat} (hk : u.size < k)
    (id : NativeId) : u.derefWithin k id = u.deref id :=
  h.isLayered.behind_iff.1 (h.isLayered.behind_of_size_lt hk id)

/-! ## §4. Spelling. -/

end Universe

/-- The spelling of a type, given how the types are spelled that it is written with. -/
def NativeKind.spelledWith (text : NativeId → String) : NativeKind → String
  | .basic kind => kind.name
  | .named decl =>
    match decl.package with
    | some package => lastSegment package ++ "." ++ decl.name
    | none => decl.name
  | .pointer elem => "*" ++ text elem
  | .slice elem => "[]" ++ text elem
  | .map key value => "map[" ++ text key ++ "]" ++ text value
  | .interface shape =>
    if shape.methods.isEmpty && shape.embedded.isEmpty then "interface\x7b\x7d"
    else
      let parts := shape.embedded.map text ++ shape.methods.map (·.name ++ "()")
      "interface\x7b " ++ String.intercalate "; " parts ++ " \x7d"
  | .struct fields =>
    let part := fun (f : Field) => (if f.embedded then "" else f.name ++ " ") ++ text f.type
    "struct\x7b" ++ String.intercalate "; " (fields.map part) ++ "\x7d"
  | .tuple elems => "(" ++ String.intercalate ", " (elems.map text) ++ ")"

/-- A type is written with its components, and no other. -/
theorem NativeKind.spelledWith_congr {text text' : NativeId → String} {k : NativeKind}
    (h : ∀ m ∈ k.components, text m = text' m) : k.spelledWith text = k.spelledWith text' := by
  -- a shape is spelled with its components; names of methods are texts already
  cases k with
  | basic kind => rfl
  | named decl => rfl
  | pointer elem => simp only [spelledWith, h elem (by simp [components])]
  | slice elem => simp only [spelledWith, h elem (by simp [components])]
  | map key value =>
    simp only [spelledWith, h key (by simp [components]), h value (by simp [components])]
  | interface shape =>
    have hembedded : shape.embedded.map text = shape.embedded.map text' := List.map_congr_left h
    simp only [spelledWith, hembedded]
  | struct fields =>
    have hfields : (fields.map fun f : Field =>
          (if f.embedded then "" else f.name ++ " ") ++ text f.type)
        = fields.map fun f : Field =>
          (if f.embedded then "" else f.name ++ " ") ++ text' f.type :=
      List.map_congr_left fun f hf => by rw [h f.type (List.mem_map.2 ⟨f, hf, rfl⟩)]
    simp only [spelledWith, hfields]
  | tuple elems =>
    have helems : elems.map text = elems.map text' := List.map_congr_left h
    simp only [spelledWith, helems]

namespace Universe

theorem spellWithin_succ (u : Universe) (k i : Nat) :
    u.spellWithin (k + 1) (.entry i) = (u.kind (.entry i)).spelledWith (u.spellWithin k) := by
  unfold spellWithin
  cases u.kind (.entry i) <;> rfl

variable {u : Universe}

/-- **The spelling of a type does not depend on the budget.**  By induction on the age of the
type. -/
theorem Layered.spellWithin_entry (h : u.Layered) {i k l : Nat} (hk : i < k) (hl : i < l) :
    u.spellWithin k (.entry i) = u.spellWithin l (.entry i) := by
  induction i using Nat.strongRecOn generalizing k l with
  | _ i ih =>
    obtain ⟨k, rfl⟩ : ∃ j, k = j + 1 := ⟨k - 1, by omega⟩
    obtain ⟨l, rfl⟩ : ∃ j, l = j + 1 := ⟨l - 1, by omega⟩
    rw [spellWithin_succ, spellWithin_succ]
    refine NativeKind.spelledWith_congr fun m hm => ?_
    -- what the type is made of is older
    obtain ⟨j, hj, rfl⟩ := h i m hm
    exact ih j hj (by omega) (by omega)

/-- **Any budget above the size spells alike.** -/
theorem Layered.spellWithin_eq_spell (h : u.Layered) {k : Nat} (hk : u.size < k)
    (id : NativeId) : u.spellWithin k id = u.spell id := by
  obtain ⟨k, rfl⟩ : ∃ j, k = j + 1 := ⟨k - 1, by omega⟩
  cases id with
  | undefined => rfl
  | entry i =>
    by_cases hi : i < u.size
    · exact h.spellWithin_entry (by omega) (by omega)
    · -- an unknown type reads as the empty tuple
      unfold spell
      rw [spellWithin_succ, spellWithin_succ, kind_of_size_le (Nat.not_lt.1 hi)]
      rfl

theorem Formed.spellWithin_eq_spell (h : u.Formed) {k : Nat} (hk : u.size < k) (id : NativeId) :
    u.spellWithin k id = u.spell id :=
  h.isLayered.spellWithin_eq_spell hk id

/-- The spelling of a type, without any budget: the types it is written with are spelled first. -/
inductive Spelled (u : Universe) : NativeId → String → Prop
  | undefined : Spelled u .undefined "<undefined>"
  | entry {i : Nat} {text : NativeId → String}
      (hparts : ∀ m ∈ (u.kind (.entry i)).components, Spelled u m (text m)) :
      Spelled u (.entry i) ((u.kind (.entry i)).spelledWith text)

/-- A type is spelled with the spellings of its parts. -/
theorem Layered.spell_entry (h : u.Layered) (i : Nat) :
    u.spell (.entry i) = (u.kind (.entry i)).spelledWith u.spell := by
  rw [← h.spellWithin_eq_spell (Nat.lt_succ_of_lt (Nat.lt_succ_self _)), spellWithin_succ]
  rfl

/-- The spelling of a type, by its kind and the spellings of its parts. -/
theorem Layered.spell_of_kind (h : u.Layered) {id : NativeId} {k : NativeKind}
    (hkind : u.kind id = k) (hk : k ≠ .tuple []) : u.spell id = k.spelledWith u.spell := by
  cases id with
  | undefined => exact absurd hkind.symm hk
  | entry i => rw [h.spell_entry, hkind]

/-- **Every type has a spelling**, which is the one that `spell` returns. -/
theorem Layered.spelled_iff (h : u.Layered) {id : NativeId} {text : String} :
    u.Spelled id text ↔ text = u.spell id := by
  constructor
  · intro hspelled
    induction hspelled with
    | undefined => rfl
    | entry _ ih =>
      rw [h.spell_entry]
      exact NativeKind.spelledWith_congr ih
  · rintro rfl
    cases id with
    | undefined => exact .undefined
    | entry i =>
      -- by induction on the age of the type
      induction i using Nat.strongRecOn with
      | _ i ih =>
        rw [h.spell_entry]
        refine .entry fun m hm => ?_
        obtain ⟨j, hj, rfl⟩ := h i m hm
        exact ih j hj

end Universe

end RpcSchema
