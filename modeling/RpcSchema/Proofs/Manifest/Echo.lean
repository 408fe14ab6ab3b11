/-
  RpcSchema.Proofs.Manifest.Echo
  ──────────────────────────────
  **A TEXT IS READ ALIKE, WHATEVER WAS READ BEFORE IT.**

  Whether a type expression can be read depends on which names are
  declared, and on nothing else that a draft holds.  What it is read to is
  the same type in any draft: if the two drafts are completed, the two ids
  are twins then.

  This is a judgement about two runs.  `Echoes P x y Q` says that wherever
  `x` succeeds, `y` succeeds on any draft that declares the same names;
  the results are related by `Q` in all completions that `P` holds of, and
  every type that `x` adds has a twin.  `Redefines` says the same of steps
  that change the declaration of a type.

  Main statements: `echo_resolve`, `echo_method` and `redefines_type`.
-/
import RpcSchema.Proofs.Manifest.Twins

namespace RpcSchema

/-! ## §1. Drafts that grow. -/

/-- An interned shape is there, and nothing else is new. -/
theorem Universe.has_intern_iff {u : Universe} {k : NativeKind} {n : NativeId} :
    (u.intern k).2.Has n ↔ u.Has n ∨ n = (u.intern k).1 := by
  constructor
  · intro hn
    rcases u.intern_cases k with ⟨_, _, _, heq⟩ | ⟨_, heq⟩
    · rw [heq] at hn
      exact Or.inl hn
    · rw [heq] at hn ⊢
      exact has_push_iff.1 hn
  · rintro (hn | rfl)
    · exact hn.of_le (size_le_intern u k)
    · exact has_intern k

namespace Draft

/-- `e` is `d` with more types, and with other declarations of the types in `S`. -/
structure Grows (S : NativeId → Prop) (d e : Draft) : Prop where
  path : e.path = d.path
  name : e.name = d.name
  declared : e.declared = d.declared
  repeated : e.repeated = d.repeated
  foreigns : ∀ key id, d.foreigns.lookup key = some id → e.foreigns.lookup key = some id
  size : d.types.size ≤ e.types.size
  kept : ∀ n, d.types.Has n → (d.types.kind n).isNamed = false ∨ ¬ S n →
    e.types.kind n = d.types.kind n

/-- `e` is `d` with more types. -/
abbrev Adds (d e : Draft) : Prop :=
  Grows (fun _ => False) d e

variable {S T : NativeId → Prop} {d e e' : Draft} {n : NativeId}

theorem Grows.refl (d : Draft) : Grows S d d :=
  ⟨rfl, rfl, rfl, rfl, fun _ _ h => h, Nat.le_refl _, fun _ _ _ => rfl⟩

theorem Grows.mono (h : Grows S d e) (hST : ∀ n, S n → T n) : Grows T d e :=
  { h with kept := fun n hn hk => h.kept n hn (hk.imp_right fun hT hS => hT (hST n hS)) }

theorem Grows.has (h : Grows S d e) (hn : d.types.Has n) : e.types.Has n :=
  hn.of_le h.size

/-- Growth goes on. -/
theorem Grows.trans (h : Grows S d e) (h' : Grows S e e') : Grows S d e' where
  path := h'.path.trans h.path
  name := h'.name.trans h.name
  declared := h'.declared.trans h.declared
  repeated := h'.repeated.trans h.repeated
  foreigns key id hid := h'.foreigns key id (h.foreigns key id hid)
  size := Nat.le_trans h.size h'.size
  kept n hn hk := by
    have heq := h.kept n hn hk
    rw [← heq]
    refine h'.kept n (h.has hn) ?_
    rwa [heq]

theorem Adds.grows (h : Adds d e) : Grows S d e :=
  h.mono fun _ hn => hn.elim

/-- A type is found by its title while the draft grows. -/
theorem Grows.find (h : Grows S d e) {t : Title} (hn : d.find? t = some n) :
    e.find? t = some n := by
  cases t with
  | error => exact hn
  | declared name =>
    unfold find? lookup? at hn ⊢
    rw [h.declared]
    exact hn
  | foreign package name => exact h.foreigns _ _ hn

/-- To intern a shape adds types. -/
theorem adds_intern (d : Draft) (k : NativeKind) : Adds d (d.build (·.intern k)).2 where
  path := rfl
  name := rfl
  declared := rfl
  repeated := rfl
  foreigns _ _ h := h
  size := Universe.size_le_intern d.types k
  kept _ hn _ := Universe.kind_intern_of_has k hn

theorem adds_addConstant (d : Draft) (name : String) (type : NativeId) (literal : String) :
    Adds d (d.addConstant name type literal) :=
  ⟨rfl, rfl, rfl, rfl, fun _ _ h => h, Nat.le_refl _, fun _ _ _ => rfl⟩

/-- Changes the declaration of one type. -/
def amend (d : Draft) (id : NativeId) (f : NamedType → NamedType) : Draft :=
  { d with types := d.types.modifyNamed id f }

/-- To amend a declaration changes no other one. -/
theorem grows_amend (d : Draft) (id : NativeId) (f : NamedType → NamedType) :
    Grows (· = id) d (d.amend id f) where
  path := rfl
  name := rfl
  declared := rfl
  repeated := rfl
  foreigns _ _ h := h
  size := Nat.le_of_eq (Universe.size_modifyNamed _ _ _).symm
  kept _ _ hk := hk.elim (Universe.kind_modifyNamed_of_not_named id f)
    (Universe.kind_modifyNamed_of_ne f)

/-- A name of another package that is new adds a type, and perhaps the shape of all of them. -/
theorem foreign_adds (d : Draft) (package name : String) :
    Adds d (d.foreign package name).2 ∧
      (d.foreign package name).2.foreigns.lookup (package, name)
        = some (d.foreign package name).1 ∧
      ∀ n, (d.foreign package name).2.types.Has n → d.types.Has n ∨ n = (d.foreign package name).1 ∨
        (d.foreign package name).2.types.kind n = .struct [] := by
  -- a name that is there is found, and one that is not is added with an empty struct
  cases hlook : d.foreigns.lookup (package, name) with
  | some id =>
    have hsame : d.foreign package name = (id, d) := by
      unfold foreign
      rw [hlook]
    rw [hsame]
    exact ⟨Grows.refl d, hlook, fun n hn => Or.inl hn⟩
  | none =>
    rw [foreign_eq_of_lookup hlook]
    obtain ⟨u, hu⟩ : ∃ u, (d.types.declareNamed name (some package)).2 = u := ⟨_, rfl⟩
    have hold : ∀ n, d.types.Has n → u.Has n ∧ u.kind n = d.types.kind n := fun n hn =>
      hu ▸ ⟨Universe.has_push_iff.2 (Or.inl hn), Universe.kind_push_of_has _ hn⟩
    -- what is new is the name, and the struct unless it was there
    have hnew : ∀ n, u.Has n → d.types.Has n ∨ n = .entry d.types.size :=
      fun n hn => Universe.has_push_iff.1 (hu ▸ hn)
    have hsize : d.types.size ≤ u.size := by
      rw [← hu, Universe.declareNamed, Universe.size_push]
      exact Nat.le_succ _
    simp only [hu]
    refine ⟨⟨rfl, rfl, rfl, rfl, fun key id hid => ?_, ?_, fun n hn _ => ?_⟩, ?_, fun n hn => ?_⟩
    · show List.lookup key (d.foreigns ++ _) = _
      rw [List.lookup_append, hid]
      rfl
    · refine Nat.le_trans hsize ?_
      exact Nat.le_trans (Universe.size_le_intern u _)
        (Nat.le_of_eq (Universe.size_modifyNamed _ _ _).symm)
    · -- a type that was there is not the one that is added
      refine (Universe.kind_defineShape_of_ne (hold n hn).1 ?_).trans (hold n hn).2
      rintro rfl
      exact Nat.lt_irrefl _ (Universe.lt_size_of_has hn)
    · show List.lookup _ (d.foreigns ++ _) = _
      rw [List.lookup_append, hlook]
      simp
    · have hn : (u.intern (.struct [])).2.Has n := by
        obtain ⟨i, hi, rfl⟩ := hn
        exact ⟨i, Nat.lt_of_lt_of_eq hi (Universe.size_modifyNamed _ _ _), rfl⟩
      rcases Universe.has_intern_iff.1 hn with hn | rfl
      · exact (hnew n hn).imp_right Or.inl
      · exact Or.inr (Or.inr (Universe.kind_defineShape_shape rfl))

/-! ## §2. Completions. -/

/-- `d` is a draft that is complete, and that `E` has grown to. -/
structure Completes (E d : Draft) : Prop where
  tidy : d.Tidy
  far : d.Opaque
  grows : Grows (fun _ => True) E d

theorem Completes.of_grows {E E' : Draft} (h : Completes E' d) (hg : Grows S E E') :
    Completes E d :=
  ⟨h.tidy, h.far, (hg.mono fun _ _ => trivial).trans h.grows⟩

/-- A shape that was interned is there. -/
theorem Completes.intern {E : Draft} {k : NativeKind} (hk : k.isNamed = false)
    (h : Completes (E.build (·.intern k)).2 d) :
    d.types.Has (E.build (·.intern k)).1 ∧ d.types.kind (E.build (·.intern k)).1 = k := by
  have hhas : (E.build (·.intern k)).2.types.Has (E.build (·.intern k)).1 :=
    Universe.has_intern k
  have hkind : (E.build (·.intern k)).2.types.kind (E.build (·.intern k)).1 = k :=
    Universe.kind_intern E.types k
  refine ⟨h.grows.has hhas, (h.grows.kept _ hhas (Or.inl ?_)).trans hkind⟩
  rw [hkind]
  exact hk

/-- Texts are read alike in drafts that declare the same names. -/
structure Akin (E F : Draft) : Prop where
  name : F.name = E.name
  names : ∀ name, (F.lookup? name).isSome = (E.lookup? name).isSome

/-- Drafts that are akin stay so while both grow. -/
theorem Akin.grow {E E' F F' : Draft} (h : Akin E F) (hE : Grows S E E') (hF : Grows T F F') :
    Akin E' F' where
  name := by rw [hF.name, hE.name, h.name]
  names name := by
    unfold lookup?
    rw [hF.declared, hE.declared]
    exact h.names name

end Draft

/-! ## §3. Reading alike. -/

namespace Building

open Draft

variable {α β : Type}

/-- Wherever `x` succeeds `y` does, on a draft that declares the same names; their results are
related by `Q` in the completions that `P` holds of, and what `x` adds has twins there. -/
def Echoes (P : Draft → Draft → Prop) (x y : Building α) (Q : Draft → Draft → α → α → Prop) :
    Prop :=
  ∀ ⦃E F : Draft⦄ ⦃a : α⦄ ⦃E' : Draft⦄, Akin E F → Runs x E a E' →
    ∃ b F', Runs y F b F' ∧ Adds E E' ∧ Adds F F' ∧
      ∀ d e, Completes E' d → Completes F' e → P d e →
        Q d e a b ∧ ∀ n, E'.types.Has n → E.types.Has n ∨ ∃ m, Twin d e n m

section Rules

variable {P : Draft → Draft → Prop} {Q : Draft → Draft → α → α → Prop}
  {R : Draft → Draft → β → β → Prop}

/-- What is returned on both sides is related if it is so in the completions. -/
theorem echo_pure {a b : α} (h : ∀ d e, d.Tidy → e.Tidy → P d e → Q d e a b) :
    Echoes P (pure a) (pure b) Q := by
  intro E F a' E' _ hrun
  obtain ⟨rfl, rfl⟩ := runs_pure.1 hrun
  exact ⟨b, F, rfl, Grows.refl E', Grows.refl F,
    fun d e hd he hP => ⟨h d e hd.tidy he.tidy hP, fun n hn => Or.inl hn⟩⟩

theorem echo_throw {x y : LoadError} : Echoes P (throw x : Building α) (throw y) Q :=
  fun _ _ _ _ _ hrun => absurd hrun not_runs_throw

/-- **Echoes in sequence**: what the first steps give is related while the second ones run. -/
theorem Echoes.bind {x y : Building α} {f g : α → Building β} (h : Echoes P x y Q)
    (hfg : ∀ a b, Echoes (fun d e => P d e ∧ Q d e a b) (f a) (g b) R) :
    Echoes P (x >>= f) (y >>= g) R := by
  intro E F c E' hakin hrun
  obtain ⟨a, E₁, hx, hf⟩ := runs_bind.1 hrun
  obtain ⟨b, F₁, hy, hE₁, hF₁, hQ⟩ := h hakin hx
  obtain ⟨c', F', hg, hE', hF', hR⟩ := hfg a b (hakin.grow hE₁ hF₁) hf
  refine ⟨c', F', runs_bind.2 ⟨b, F₁, hy, hg⟩, hE₁.trans hE', hF₁.trans hF',
    fun d e hd he hP => ?_⟩
  -- the completions are those of the last draft, so they complete the one in the middle too
  obtain ⟨hQab, hnew₁⟩ := hQ d e (hd.of_grows hE') (he.of_grows hF') hP
  obtain ⟨hRc, hnew₂⟩ := hR d e hd he ⟨hP, hQab⟩
  refine ⟨hRc, fun n hn => ?_⟩
  rcases hnew₂ n hn with hn | hn
  · exact hnew₁ n hn
  · exact Or.inr hn

/-- An echo under weaker conditions, and with less to say. -/
theorem Echoes.imp {P' : Draft → Draft → Prop} {Q' : Draft → Draft → α → α → Prop}
    {x y : Building α} (h : Echoes P x y Q) (hP : ∀ d e, P' d e → P d e)
    (hQ : ∀ d e a b, Q d e a b → Q' d e a b) : Echoes P' x y Q' := by
  intro E F a E' hakin hrun
  obtain ⟨b, F', hy, hE', hF', h⟩ := h hakin hrun
  refine ⟨b, F', hy, hE', hF', fun d e hd he hPde => ?_⟩
  obtain ⟨hQab, hnew⟩ := h d e hd he (hP d e hPde)
  exact ⟨hQ d e a b hQab, hnew⟩

/-- What reads alike in all completions does so in those that are asked for. -/
theorem Echoes.any {x y : Building α} (h : Echoes (fun _ _ => True) x y Q) : Echoes P x y Q :=
  h.imp (fun _ _ _ => trivial) fun _ _ _ _ hQ => hQ

/-- To look at drafts that are akin. -/
theorem echo_get {f g : Draft → Building α} (h : ∀ E F, Akin E F → Echoes P (f E) (g F) Q) :
    Echoes P (get >>= f) (get >>= g) Q := by
  intro E F a E' hakin hrun
  obtain ⟨_, _, hget, hf⟩ := runs_bind.1 hrun
  obtain ⟨rfl, rfl⟩ := runs_get.1 hget
  obtain ⟨b, F', hg, hrest⟩ := h _ F hakin hakin hf
  exact ⟨b, F', runs_bind.2 ⟨F, F, runs_get.2 ⟨rfl, rfl⟩, hg⟩, hrest⟩

/-- Along a list results are related place by place. -/
theorem echo_mapM {f g : β → Building α} {l : List β}
    (h : ∀ b ∈ l, Echoes P (f b) (g b) Q) :
    Echoes P (l.mapM f) (l.mapM g) fun d e => List.Forall₂ (Q d e) := by
  induction l with
  | nil => exact echo_pure fun _ _ _ _ _ => .nil
  | cons b l ih =>
    rw [List.mapM_cons, List.mapM_cons]
    refine (h b List.mem_cons_self).bind fun a a' => ?_
    -- the twins found so far stay twins in the larger drafts
    have hrest : Echoes (fun d e => P d e ∧ Q d e a a') (l.mapM f) (l.mapM g)
        fun d e => List.Forall₂ (Q d e) :=
      (ih fun c hc => h c (List.mem_cons_of_mem b hc)).imp (fun _ _ hP => hP.1)
        fun _ _ _ _ hQ => hQ
    exact hrest.bind fun as as' => echo_pure fun d e _ _ hP => .cons hP.1.2 hP.2

/-- **A shape of twins is one shape.** -/
theorem echo_shape {k k' : NativeKind} (hk : k.isNamed = false) (hk' : k'.isNamed = false)
    (h : ∀ d e, P d e → Matches (Twin d e) k k') :
    Echoes P (shape (·.intern k)) (shape (·.intern k')) Twin := by
  intro E F n E' _ hrun
  have heq := runs_modifyGet.1 hrun
  obtain rfl : (E.build (·.intern k)).1 = n := congrArg Prod.fst heq
  obtain rfl : (E.build (·.intern k)).2 = E' := congrArg Prod.snd heq
  refine ⟨_, _, rfl, adds_intern E k, adds_intern F k', fun d e hd he hP => ?_⟩
  -- the completions keep both shapes
  obtain ⟨hhas, hkind⟩ := hd.intern hk
  obtain ⟨hhas', hkind'⟩ := he.intern hk'
  have htwin : Twin d e (E.build (·.intern k)).1 (F.build (·.intern k')).1 := by
    refine twin_of_matches hhas hhas' (by rw [hkind]; exact hk) ?_
    rw [hkind, hkind']
    exact h d e hP
  refine ⟨htwin, fun n hn => ?_⟩
  rcases Universe.has_intern_iff.1 hn with hn | rfl
  · exact Or.inl hn
  · exact Or.inr ⟨_, htwin⟩

/-- To look a name up gives the type it is declared as. -/
theorem runs_declared {name written : String} {E E' : Draft} {n : NativeId} :
    Runs (declared name written) E n E' ↔ E.lookup? name = some n ∧ E' = E := by
  unfold declared
  rw [runs_bind]
  constructor
  · rintro ⟨_, _, hget, hrest⟩
    obtain ⟨rfl, rfl⟩ := runs_get.1 hget
    -- the name is declared, or the step fails
    split at hrest
    · rename_i id hid
      obtain ⟨rfl, rfl⟩ := runs_pure.1 hrest
      exact ⟨hid, rfl⟩
    · exact absurd hrest not_runs_throw
  · rintro ⟨hid, rfl⟩
    refine ⟨E', E', runs_get.2 ⟨rfl, rfl⟩, ?_⟩
    rw [hid]
    exact runs_pure.2 ⟨rfl, rfl⟩

/-- A name is looked up as twins. -/
theorem echo_declared (name written : String) :
    Echoes P (declared name written) (declared name written) Twin := by
  intro E F n E' hakin hrun
  obtain ⟨hn, rfl⟩ := runs_declared.1 hrun
  have hsome := hakin.names name
  rw [hn] at hsome
  obtain ⟨m, hm⟩ := Option.isSome_iff_exists.1 hsome
  refine ⟨m, F, runs_declared.2 ⟨hm, rfl⟩, Grows.refl _, Grows.refl F, fun d e hd he _ => ?_⟩
  -- the two ids are twins since they bear one name
  have htwin : Twin d e n m :=
    .named (.declared name) (hd.grows.find hn) (he.grows.find hm)
  exact ⟨htwin, fun n hn => Or.inl hn⟩

/-- **A name of another package is one type**, and its shape is that of all of them. -/
theorem echo_foreign (package name : String) :
    Echoes P (modifyGet (·.foreign package name)) (modifyGet (·.foreign package name)) Twin := by
  intro E F n E' _ hrun
  have heq := runs_modifyGet.1 hrun
  obtain rfl : (E.foreign package name).1 = n := congrArg Prod.fst heq
  obtain rfl : (E.foreign package name).2 = E' := congrArg Prod.snd heq
  obtain ⟨hE, hn, hnew⟩ := E.foreign_adds package name
  obtain ⟨hF, hm, _⟩ := F.foreign_adds package name
  refine ⟨_, _, rfl, hE, hF, fun d e hd he _ => ?_⟩
  have hfound := he.grows.find (t := .foreign package name) hm
  have htwin : Twin d e (E.foreign package name).1 (F.foreign package name).1 :=
    .named (.foreign package name) (hd.grows.find (t := .foreign package name) hn) hfound
  refine ⟨htwin, fun n hn => ?_⟩
  rcases hnew n hn with hn | rfl | hk
  · exact Or.inl hn
  · exact Or.inr ⟨_, htwin⟩
  · -- the shape without fields is there in the other draft as well
    obtain ⟨m, _, hm⟩ := he.far _ (Sequence.mem_of_lookup hfound)
    have hkd : d.types.kind n = .struct [] :=
      (hd.grows.kept n hn (Or.inl (by rw [hk]; rfl))).trans hk
    refine Or.inr ⟨m, twin_of_matches (hd.grows.has hn)
      (Universe.has_of_kind_ne (by simp [hm])) (by rw [hkd]; rfl) ?_⟩
    rw [hkd, hm]
    exact ⟨rfl, .nil⟩

/-- A text that cannot be parsed fails at once. -/
theorem echo_parse {source : String} {f g : TypeExpr → Building α}
    (h : ∀ e, Echoes P (f e) (g e) Q) :
    Echoes P (parse source >>= f) (parse source >>= g) Q := by
  unfold parse
  split
  · rw [pure_bind, pure_bind]
    exact h _
  · intro E F a E' _ hrun
    obtain ⟨_, _, hthrow, _⟩ := runs_bind.1 hrun
    exact absurd hthrow not_runs_throw

end Rules

/-! ## §4. Type expressions. -/

/-- A builtin type is its own twin. -/
theorem twin_builtin {d e : Draft} (hd : d.Tidy) (he : e.Tidy) {i : Nat} (hi : i < 21) :
    Twin d e (.entry i) (.entry i) := by
  have hhas : ∀ {d : Draft}, d.Tidy → ∀ {j}, j < 21 → d.types.Has (.entry j) :=
    fun hd _ hj => ⟨_, Nat.lt_of_lt_of_le hj hd.size_le, rfl⟩
  -- a builtin shape that mentions no type
  have hplain : ∀ j < 20, j ≠ 18 → Twin d e (.entry j) (.entry j) := by
    intro j hj hne
    have hkinds : ∀ j < 20, j ≠ 18 → (Universe.predeclared.kind (.entry j)).isNamed = false ∧
        mentions (Universe.predeclared.kind (.entry j)) = [] := by decide
    obtain ⟨hname, hnone⟩ := hkinds j hj hne
    have hj' : j < 21 := Nat.lt_succ_of_lt hj
    refine twin_of_matches (hhas hd hj') (hhas he hj') ?_ ?_
    · rw [hd.builtin j hj']
      exact hname
    · rw [hd.builtin j hj', he.builtin j hj']
      refine ⟨rfl, ?_⟩
      rw [hnone]
      exact .nil
  by_cases herror : i = 18
  · subst herror
    exact .named .error rfl rfl
  · by_cases hshape : i = 20
    · -- the shape of `error` mentions `string`
      subst hshape
      refine twin_of_matches (hhas hd hi) (hhas he hi) (by rw [hd.builtin 20 hi]; rfl) ?_
      rw [hd.builtin 20 hi, he.builtin 20 hi]
      exact ⟨rfl, .cons (hplain 1 (by decide) (by decide)) .nil⟩
    · exact hplain i (by omega) herror

section Reading

variable {P : Draft → Draft → Prop}

theorem echo_basic (kind : BasicKind) :
    Echoes P (pure (NativeId.basic kind)) (pure (NativeId.basic kind)) Twin :=
  echo_pure fun _ _ hd he _ => twin_builtin hd he (Nat.lt_trans kind.index_lt (by decide))

theorem echo_emptyInterface :
    Echoes P (pure NativeId.emptyInterface) (pure NativeId.emptyInterface) Twin :=
  echo_pure fun _ _ hd he _ => twin_builtin hd he (by decide)

/-- **A type expression is read alike.** -/
theorem echo_resolve (source : String) (e : TypeExpr) :
    Echoes (fun _ _ => True) (resolve source e) (resolve source e) Twin := by
  -- on the expression; the same branch is taken on both sides
  induction e with
  | unqualified name =>
    unfold resolve
    split
    · exact echo_basic _
    · split
      · exact echo_pure fun _ _ _ _ _ => .named .error rfl rfl
      · split
        · exact echo_emptyInterface
        · exact echo_declared name name
  | qualified package name =>
    unfold resolve
    split
    · exact echo_basic _
    · -- the drafts have one name, so both ask or neither does
      refine echo_get fun E F hakin => ?_
      rw [hakin.name]
      split
      · exact echo_declared name _
      · exact echo_foreign package name
  | pointer elem ih =>
    unfold resolve
    exact ih.bind fun n m => echo_shape rfl rfl fun d e hP => matches_pointer hP.2
  | slice elem ih =>
    unfold resolve
    exact ih.bind fun n m => echo_shape rfl rfl fun d e hP => matches_slice hP.2
  | map key value ihkey ihvalue =>
    unfold resolve
    refine ihkey.bind fun n m => ihvalue.any.bind fun n' m' => ?_
    exact echo_shape rfl rfl fun d e hP => matches_map hP.1.2 hP.2
  | emptyInterface => exact echo_emptyInterface
  | variadic elem _ => exact echo_throw

/-- **A text is resolved to twins.** -/
theorem echo_resolveText (source : String) :
    Echoes P (resolveText source) (resolveText source) Twin :=
  echo_parse fun e => (echo_resolve source e).any

/-! ## §5. Declarations. -/

/-- Fields match. -/
theorem echo_field (decl : VarDecl) :
    Echoes P (field decl) (field decl) fun d e => Matches (Twin d e) := by
  refine echo_parse fun x => (echo_resolve decl.type x).any.bind fun n m => ?_
  split
  · exact echo_pure fun d e _ _ hP => matches_field _ _ hP.2
  · split
    · exact echo_pure fun d e _ _ hP => matches_field _ _ hP.2
    · exact echo_throw

/-- Parameters match, and are variadic or not. -/
theorem echo_params (method : String) (decls : List VarDecl) :
    Echoes P (params method decls) (params method decls)
      fun d e a b => Matches (Twin d e) a.1 b.1 ∧ a.2 = b.2 := by
  -- on the parameters
  induction decls generalizing P with
  | nil => exact echo_pure fun _ _ _ _ _ => ⟨⟨rfl, .nil⟩, rfl⟩
  | cons decl rest ih =>
    unfold params
    refine echo_parse fun x => ?_
    split
    · split
      · refine (echo_resolve decl.type _).any.bind fun n m => ?_
        refine (echo_shape (k := .slice n) rfl rfl fun d e hP =>
          matches_slice hP.2).bind fun n' m' => ?_
        exact echo_pure fun d e _ _ hP =>
          ⟨matches_of_forall₂ (.cons (matches_var _ hP.2) .nil), rfl⟩
      · exact echo_throw
    · refine (echo_resolve decl.type _).any.bind fun n m => ih.bind fun vs ws => ?_
      exact echo_pure fun d e _ _ hP => ⟨matches_cons (matches_var _ hP.1.2) hP.2.1, hP.2.2⟩

/-- Methods match. -/
theorem echo_method (decl : MethodDecl) :
    Echoes P (method decl) (method decl) fun d e => Matches (Twin d e) := by
  refine (echo_params decl.name decl.params).bind fun ps qs => ?_
  have hresult : ∀ v : VarDecl, ∀ {P : Draft → Draft → Prop}, Echoes P (result v) (result v)
      fun d e => Matches (Twin d e) := fun v _ =>
    (echo_resolveText v.type).bind fun n m => echo_pure fun d e _ _ hP => matches_var _ hP.2
  refine (echo_mapM fun v _ => hresult v).bind fun rs ts => echo_pure fun d e _ _ hP => ?_
  obtain ⟨⟨_, hparams, hvariadic⟩, hresults⟩ := hP
  rw [hvariadic]
  exact matches_method _ _ hparams (matches_of_forall₂ hresults)

end Reading

/-! ## §6. Types. -/

/-- As `Echoes`, for steps that change the declarations of `id` and `id'`: these are related by
`K` before, and by `L` in the completions. -/
def Redefines (id id' : NativeId) (K : Draft → Draft → NamedType → NamedType → Prop)
    (x y : Building Unit) (L : Draft → Draft → NamedType → NamedType → Prop) : Prop :=
  ∀ ⦃E F : Draft⦄ ⦃k k' : NamedType⦄ ⦃E' : Draft⦄, Akin E F → E.types.kind id = .named k →
    F.types.kind id' = .named k' → Runs x E ⟨⟩ E' →
      ∃ F' l l', Runs y F ⟨⟩ F' ∧ Grows (· = id) E E' ∧ Grows (· = id') F F' ∧
        E'.types.kind id = .named l ∧ F'.types.kind id' = .named l' ∧
        ∀ d e, Completes E' d → Completes F' e → K d e k k' →
          L d e l l' ∧ ∀ n, E'.types.Has n → E.types.Has n ∨ ∃ m, Twin d e n m

section Defining

variable {id id' : NativeId} {K L M : Draft → Draft → NamedType → NamedType → Prop}

/-- To read something and change the declaration by it. -/
theorem redefines_amend {x y : Building α} {Q : Draft → Draft → α → α → Prop}
    (h : Echoes (fun _ _ => True) x y Q) {w : α → NamedType → NamedType}
    (hw : ∀ d e a b k k', Q d e a b → K d e k k' → L d e (w a k) (w b k')) :
    Redefines id id' K (x >>= fun a => modify (·.amend id (w a)))
      (y >>= fun b => modify (·.amend id' (w b))) L := by
  intro E F k k' E' hakin hk hk' hrun
  obtain ⟨a, E₁, hx, hwrite⟩ := runs_bind.1 hrun
  obtain rfl := runs_modify.1 hwrite
  obtain ⟨b, F₁, hy, hE, hF, hQ⟩ := h hakin hx
  -- what was read in between leaves the declarations alone
  have hkept : ∀ {E E₁ : Draft} {n k}, Adds E E₁ → E.types.kind n = .named k →
      E₁.types.kind n = .named k := fun hE hn =>
    (hE.kept _ (Universe.has_of_named hn) (Or.inr not_false)).trans hn
  refine ⟨_, _, _, runs_bind.2 ⟨b, F₁, hy, runs_modify.2 rfl⟩,
    hE.grows.trans (grows_amend E₁ id _), hF.grows.trans (grows_amend F₁ id' _),
    Universe.kind_modifyNamed_self _ (hkept hE hk), Universe.kind_modifyNamed_self _ (hkept hF hk'),
    fun d e hd he hK => ?_⟩
  -- the completions complete the drafts before the amendment too
  obtain ⟨hab, hnew⟩ := hQ d e (hd.of_grows (grows_amend E₁ id _))
    (he.of_grows (grows_amend F₁ id' _)) trivial
  refine ⟨hw d e a b k k' hab hK, fun n hn => hnew n ?_⟩
  obtain ⟨i, hi, rfl⟩ := hn
  exact ⟨i, Nat.lt_of_lt_of_eq hi (Universe.size_modifyNamed _ _ _), rfl⟩

/-- Redefinitions in sequence. -/
theorem Redefines.seq {x y x' y' : Building Unit} (h : Redefines id id' K x y L)
    (h' : Redefines id id' L x' y' M) :
    Redefines id id' K (x >>= fun _ => x') (y >>= fun _ => y') M := by
  intro E F k k' E' hakin hk hk' hrun
  obtain ⟨_, E₁, hx, hx'⟩ := runs_bind.1 hrun
  obtain ⟨F₁, l, l', hy, hE, hF, hl, hl', hL⟩ := h hakin hk hk' hx
  obtain ⟨F', m, m', hy', hE', hF', hm, hm', hM⟩ := h' (hakin.grow hE hF) hl hl' hx'
  refine ⟨F', m, m', runs_bind.2 ⟨_, F₁, hy, hy'⟩, hE.trans hE', hF.trans hF', hm, hm',
    fun d e hd he hK => ?_⟩
  -- what holds after the first part is what the second one needs
  obtain ⟨hLl, hnew⟩ := hL d e (hd.of_grows hE') (he.of_grows hF') hK
  obtain ⟨hMm, hnew'⟩ := hM d e hd he hLl
  refine ⟨hMm, fun n hn => ?_⟩
  rcases hnew' n hn with hn | hn
  · exact hnew n hn
  · exact Or.inr hn

/-- Along a list, if each keeps the relation. -/
theorem redefines_forM {f g : α → Building Unit} {l : List α}
    (h : ∀ a ∈ l, Redefines id id' K (f a) (g a) K) :
    Redefines id id' K (l.forM f) (l.forM g) K := by
  -- on the list, keeping that the two declarations correspond
  induction l with
  | nil =>
    intro E F k k' E' _ hk hk' hrun
    obtain rfl := runs_forM_nil.1 hrun
    exact ⟨F, k, k', runs_forM_nil.2 rfl, Grows.refl _, Grows.refl F, hk, hk',
      fun d e _ _ hK => ⟨hK, fun n hn => Or.inl hn⟩⟩
  | cons a l ih =>
    exact (h a List.mem_cons_self).seq (ih fun b hb => h b (List.mem_cons_of_mem a hb))

/-- What a type is declared to be: the shape of a struct or of an interface, or another type. -/
def target : UnderlyingDecl → Building NativeId
  | .struct fields => do
    let fields ← fields.mapM field
    shape (·.struct fields)
  | .interface methods embeds => do
    let methods ← methods.mapM method
    let embedded ← embeds.mapM resolveText
    shape (·.interface ⟨methods, embedded⟩)
  | .type expr => resolveText expr

/-- To define a type is to read what it stands for, and then to write that down. -/
theorem underlying_eq (id : NativeId) (decl : UnderlyingDecl) :
    underlying id decl
      = target decl >>= fun n => modify (·.amend id fun k => { k with underlying := n }) := by
  cases decl with
  | struct fields =>
    unfold underlying target
    rw [bind_assoc]
    rfl
  | interface methods embeds =>
    unfold underlying target
    simp only [bind_assoc]
    rfl
  | type expr => rfl

/-- What a type is declared as is read as twins. -/
theorem echo_target (decl : UnderlyingDecl) :
    Echoes (fun _ _ => True) (target decl) (target decl) Twin := by
  cases decl with
  | struct fields =>
    refine (echo_mapM fun x _ => echo_field x).bind fun fs gs => ?_
    exact echo_shape rfl rfl fun d e hP => matches_struct (matches_of_forall₂ hP.2)
  | interface methods embeds =>
    refine (echo_mapM fun m _ => echo_method m).bind fun ms ms' => ?_
    refine (echo_mapM fun x _ => echo_resolveText x).bind fun es es' => ?_
    refine echo_shape rfl rfl fun d e hP => matches_interface (matches_of_forall₂ hP.1.2) ?_
    exact matches_of_forall₂ (hP.2.imp fun _ _ h => matches_id h)
  | type expr => exact echo_resolveText expr

/-- **A type is defined alike**, if nothing is known of it but its name. -/
theorem redefines_type (decl : TypeDecl) :
    Redefines id id' (fun _ _ k k' => k' = k ∧ k.methods = []) (type id decl) (type id' decl)
      fun d e => Matches (Twin d e) := by
  unfold type
  rw [underlying_eq, underlying_eq]
  refine Redefines.seq (redefines_amend (echo_target decl.underlying) ?_)
    (redefines_forM fun m _ => ?_)
  · rintro d e n n' k k' htwin ⟨hsame, hnone⟩
    rw [hsame]
    refine matches_declaration k.name k.package htwin ?_
    rw [hnone]
    exact ⟨rfl, .nil⟩
  · exact redefines_amend (echo_method m) fun d e m m' k k' hm hk => matches_addMethod hk hm

end Defining

end Building

end RpcSchema
