/-
  RpcSchema.Proofs.Native.Entries
  ───────────────────────────────
  **WHAT ADDING, INTERNING AND DEFINING DO TO THE ENTRIES.**

  To add an entry changes none that is there.  A shape is interned where it
  stands, and is added only if it stands nowhere; so no shape ever stands
  there twice.  To define a named type changes its declaration, and no
  other entry.

  Main statements: `kind_push_cases`, `intern_cases`, `kind_modifyNamed_self`
  (the entries after one step) and `Single.intern` (no shape stands there
  twice).
-/
import Mathlib.Data.List.Basic
import RpcSchema.Native.Universe

namespace RpcSchema.Universe

variable {u : Universe} {n : NativeId}

/-! ## §1. Entries that were handed out. -/

/-- An id that the universe handed out. -/
def Has (u : Universe) (id : NativeId) : Prop :=
  ∃ i, i < u.size ∧ id = .entry i

theorem kind_of_size_le {i : Nat} (h : u.size ≤ i) : u.kind (.entry i) = .tuple [] := by
  show u.kinds.getD i (.tuple []) = .tuple []
  rw [Array.getD_eq_getD_getElem?, Array.getElem?_eq_none h]
  rfl

theorem Has.of_le {v : Universe} {id : NativeId} (h : u.Has id) (hle : u.size ≤ v.size) :
    v.Has id := by
  obtain ⟨i, hi, rfl⟩ := h
  exact ⟨i, Nat.lt_of_lt_of_le hi hle, rfl⟩

theorem lt_size_of_has {i : Nat} (h : u.Has (.entry i)) : i < u.size := by
  obtain ⟨j, hj, hij⟩ := h
  rwa [NativeId.entry.inj hij]

theorem not_has_push (u : Universe) (k : NativeKind) : ¬ u.Has (u.push k).1 :=
  fun h => Nat.lt_irrefl _ (lt_size_of_has h)

/-- An entry that is no empty tuple was handed out. -/
theorem has_of_kind_ne (h : u.kind n ≠ .tuple []) : u.Has n := by
  cases n with
  | undefined => exact absurd rfl h
  | entry i =>
    refine ⟨i, ?_, rfl⟩
    by_contra hi
    exact h (kind_of_size_le (Nat.not_lt.1 hi))

theorem has_of_named {decl : NamedType} (h : u.kind n = .named decl) : u.Has n :=
  has_of_kind_ne (by simp [h])

theorem size_le_push (u : Universe) (k : NativeKind) : u.size ≤ (u.push k).2.size := by
  rw [size_push]
  exact Nat.le_succ _

theorem has_push (k : NativeKind) : (u.push k).2.Has (u.push k).1 :=
  ⟨u.size, by rw [size_push]; exact Nat.lt_succ_self _, rfl⟩

theorem has_push_iff {k : NativeKind} :
    (u.push k).2.Has n ↔ u.Has n ∨ n = (u.push k).1 := by
  constructor
  · rintro ⟨i, hi, rfl⟩
    rw [size_push] at hi
    rcases Nat.lt_or_eq_of_le (Nat.lt_succ_iff.1 hi) with hi | rfl
    · exact Or.inl ⟨i, hi, rfl⟩
    · exact Or.inr rfl
  · rintro (h | rfl)
    · exact h.of_le (u.size_le_push k)
    · exact has_push k

/-- What has a name has a declaration. -/
theorem exists_named (h : (u.kind n).isNamed = true) : ∃ decl, u.kind n = .named decl := by
  cases hk : u.kind n with
  | named decl => exact ⟨decl, rfl⟩
  | _ =>
    rw [hk] at h
    cases h

/-! ## §2. Adding. -/

/-- To push changes no other id. -/
theorem kind_push_of_ne (k : NativeKind) (h : n ≠ (u.push k).1) :
    (u.push k).2.kind n = u.kind n := by
  cases n with
  | undefined => rfl
  | entry i =>
    rcases Nat.lt_trichotomy i u.size with hi | rfl | hi
    · exact kind_push_of_lt u k hi
    · exact absurd rfl h
    · rw [kind_of_size_le (Nat.le_of_lt hi), kind_of_size_le (by rw [size_push]; omega)]

theorem kind_push_of_has (k : NativeKind) (h : u.Has n) :
    (u.push k).2.kind n = u.kind n :=
  kind_push_of_ne k fun hn => not_has_push u k (hn ▸ h)

/-- An entry of the longer universe is an old one or the new one. -/
theorem kind_push_cases {k : NativeKind} (h : (u.push k).2.Has n) :
    u.Has n ∧ (u.push k).2.kind n = u.kind n ∨ n = (u.push k).1 ∧ (u.push k).2.kind n = k := by
  rcases has_push_iff.1 h with hn | rfl
  · exact Or.inl ⟨hn, kind_push_of_has k hn⟩
  · exact Or.inr ⟨rfl, kind_push u k⟩

/-- A named type was there, or it is the one that was pushed. -/
theorem named_push_cases {k : NativeKind} {decl : NamedType}
    (h : (u.push k).2.kind n = .named decl) :
    u.kind n = .named decl ∨ n = (u.push k).1 ∧ k = .named decl := by
  rcases kind_push_cases (has_of_named h) with ⟨_, heq⟩ | ⟨hn, heq⟩
  · exact Or.inl (heq.symm.trans h)
  · exact Or.inr ⟨hn, heq.symm.trans h⟩

/-! ## §3. Interning. -/

/-- A shape is interned where it stands, or stands nowhere and is added. -/
theorem intern_cases (u : Universe) (k : NativeKind) :
    (∃ m, u.Has m ∧ u.kind m = k ∧ u.intern k = (m, u)) ∨
      (∀ m, u.Has m → u.kind m ≠ k) ∧ u.intern k = u.push k := by
  unfold intern
  split
  · -- found: the kind at the place that was found is the one looked for
    rename_i i hi
    obtain ⟨hlt, hk, _⟩ := Array.findIdx?_eq_some_iff_getElem.1 hi
    refine Or.inl ⟨.entry i, ⟨i, hlt, rfl⟩, ?_, rfl⟩
    simp only [kind, Array.getD_eq_getD_getElem?, Array.getElem?_eq_getElem hlt,
      Option.getD_some]
    simpa using hk
  · -- not found: no kind that is there is the one looked for
    rename_i hnone
    refine Or.inr ⟨fun m hm hk => ?_, rfl⟩
    obtain ⟨i, hi, rfl⟩ := hm
    have hne := Array.findIdx?_eq_none_iff.1 hnone (u.kind (.entry i)) (by
      have hlt : i < u.kinds.size := hi
      simp [kind, hlt])
    simp [hk] at hne

/-- An interned kind is there. -/
theorem has_intern (k : NativeKind) : (u.intern k).2.Has (u.intern k).1 := by
  rcases u.intern_cases k with ⟨_, hm, _, hi⟩ | ⟨_, hi⟩
  · rwa [hi]
  · rw [hi]
    exact has_push k

theorem kind_intern_of_has (k : NativeKind) (h : u.Has n) :
    (u.intern k).2.kind n = u.kind n := by
  obtain ⟨i, hi, rfl⟩ := h
  exact kind_intern_of_lt u k hi

/-! ## §4. Defining. -/

/-- A change of a declaration changes nothing but declarations. -/
theorem kind_modifyNamed (u : Universe) (id : NativeId) (f : NamedType → NamedType)
    (n : NativeId) :
    (u.modifyNamed id f).kind n = u.kind n ∨
      ∃ decl, u.kind n = .named decl ∧ (u.modifyNamed id f).kind n = .named (f decl) := by
  cases id with
  | undefined => exact Or.inl rfl
  | entry i =>
    cases n with
    | undefined => exact Or.inl rfl
    | entry j =>
      simp only [modifyNamed, kind, Array.getD_eq_getD_getElem?, Array.getElem?_modify]
      -- only the entry itself changes, and only if it is a named type
      by_cases hij : i = j
      · cases hk : u.kinds[j]? with
        | none => simp [hij]
        | some k => cases k <;> simp [hij]
      · simp [hij]

/-- To modify a declaration changes no other type. -/
theorem kind_modifyNamed_of_ne {id : NativeId} (f : NamedType → NamedType) (h : n ≠ id) :
    (u.modifyNamed id f).kind n = u.kind n := by
  cases id with
  | undefined => rfl
  | entry i =>
    cases n with
    | undefined => rfl
    | entry j =>
      have hij : i ≠ j := fun hij => h (congrArg NativeId.entry hij.symm)
      simp [modifyNamed, kind, Array.getElem?_modify, hij]

theorem kind_modifyNamed_self {decl : NamedType} (f : NamedType → NamedType)
    (h : u.kind n = .named decl) : (u.modifyNamed n f).kind n = .named (f decl) := by
  obtain ⟨i, hi, rfl⟩ := has_of_named h
  have hlt : i < u.kinds.size := hi
  simp only [kind, Array.getD_eq_getD_getElem?, Array.getElem?_eq_getElem hlt,
    Option.getD_some] at h
  simp only [modifyNamed, kind, Array.getD_eq_getD_getElem?, Array.getElem?_modify,
    Array.getElem?_eq_getElem hlt, h, if_pos, Option.map_some, Option.getD_some]

/-- Only named types change, and they stay named. -/
theorem kind_modifyNamed_of_not_named (id : NativeId) (f : NamedType → NamedType)
    (h : (u.kind n).isNamed = false) : (u.modifyNamed id f).kind n = u.kind n := by
  rcases kind_modifyNamed u id f n with hold | ⟨decl, hn, _⟩
  · exact hold
  · rw [hn] at h
    cases h

theorem isNamed_modifyNamed (u : Universe) (id : NativeId) (f : NamedType → NamedType)
    (n : NativeId) : ((u.modifyNamed id f).kind n).isNamed = (u.kind n).isNamed := by
  rcases kind_modifyNamed u id f n with hold | ⟨decl, hn, hnew⟩
  · rw [hold]
  · rw [hn, hnew]
    rfl

theorem has_modifyNamed {id : NativeId} {f : NamedType → NamedType} :
    (u.modifyNamed id f).Has n ↔ u.Has n := by
  simp only [Has, size_modifyNamed]

/-! Interning a shape and giving it to a named type. -/

section DefineShape

variable {k : NativeKind}

theorem kind_defineShape_of_ne {m : NativeId} (hm : u.Has m) (hne : m ≠ n) :
    ((u.intern k).2.setUnderlying n (u.intern k).1).kind m = u.kind m := by
  rw [setUnderlying, kind_modifyNamed_of_ne _ hne, kind_intern_of_has k hm]

/-- To define a type as a shape changes what the type stands for. -/
theorem kind_defineShape_self {decl : NamedType} (hn : u.kind n = .named decl) :
    ((u.intern k).2.setUnderlying n (u.intern k).1).kind n
      = .named { decl with underlying := (u.intern k).1 } := by
  refine kind_modifyNamed_self _ ?_
  rw [kind_intern_of_has k (has_of_named hn), hn]

theorem kind_defineShape_shape (hk : k.isNamed = false) :
    ((u.intern k).2.setUnderlying n (u.intern k).1).kind (u.intern k).1 = k := by
  rw [setUnderlying, kind_modifyNamed_of_not_named, kind_intern]
  rwa [kind_intern]

end DefineShape

/-! ## §5. Shapes stand there once. -/

/-- No unnamed shape stands there twice. -/
def Single (u : Universe) : Prop :=
  ∀ a b, u.Has a → u.Has b → (u.kind a).isNamed = false → u.kind a = u.kind b → a = b

/-- The predeclared shapes differ. -/
theorem predeclared_single : predeclared.Single := by
  have hall : ∀ i < predeclared.size, ∀ j < predeclared.size,
      predeclared.kind (.entry i) = predeclared.kind (.entry j) → i = j := by
    decide
  rintro a b ⟨i, hi, rfl⟩ ⟨j, hj, rfl⟩ _ heq
  rw [hall i hi j hj heq]

/-- An entry may be added that has a name, or stands nowhere. -/
theorem Single.push (h : u.Single) {k : NativeKind}
    (hnew : k.isNamed = false → ∀ m, u.Has m → u.kind m ≠ k) : (u.push k).2.Single := by
  intro a b ha hb hname heq
  rcases kind_push_cases ha with ⟨ha, hka⟩ | ⟨rfl, hka⟩
  · rw [hka] at heq hname
    -- an old entry against the new one: the new one would not have been added
    rcases kind_push_cases hb with ⟨hb, hkb⟩ | ⟨rfl, hkb⟩
    · exact h a b ha hb hname (heq.trans hkb)
    · rw [hkb] at heq
      exact absurd heq (hnew (heq ▸ hname) a ha)
  · rw [hka] at heq hname
    rcases kind_push_cases hb with ⟨hb, hkb⟩ | ⟨rfl, _⟩
    · exact absurd (heq.trans hkb).symm (hnew hname b hb)
    · rfl

/-- To intern keeps shapes single, since a shape that is there is found. -/
theorem Single.intern (h : u.Single) (k : NativeKind) : (u.intern k).2.Single := by
  rcases u.intern_cases k with ⟨_, _, _, hi⟩ | ⟨hnone, hi⟩
  · rw [hi]
    exact h
  · rw [hi]
    exact h.push fun _ => hnone

/-- To modify declarations does, since they are no shapes. -/
theorem Single.modifyNamed (h : u.Single) (id : NativeId) (f : NamedType → NamedType) :
    (u.modifyNamed id f).Single := by
  intro a b ha hb hname heq
  rw [has_modifyNamed] at ha hb
  rw [isNamed_modifyNamed] at hname
  have hname' : (u.kind b).isNamed = false := by
    rw [← isNamed_modifyNamed u id f, ← heq, isNamed_modifyNamed, hname]
  rw [kind_modifyNamed_of_not_named id f hname, kind_modifyNamed_of_not_named id f hname'] at heq
  exact h a b ha hb hname heq

/-- **A shape is interned at the one entry that holds it.** -/
theorem Single.intern_eq (h : u.Single) {k : NativeKind} (hk : k.isNamed = false) {a : NativeId}
    (ha : u.Has a) (hka : u.kind a = k) : u.intern k = (a, u) := by
  rcases u.intern_cases k with ⟨b, hb, hkb, hi⟩ | ⟨hnone, _⟩
  · rw [hi, h b a hb ha (by rw [hkb, hk]) (hkb.trans hka.symm)]
  · exact absurd hka (hnone a ha)

end RpcSchema.Universe
