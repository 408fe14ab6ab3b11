/-
  RpcSchema.Proofs.Package.Construction
  ─────────────────────────────────────
  **PACKAGES UNDER CONSTRUCTION, AND WHAT EVERY CALL LEAVES ALONE.**

  A package is built by calls: names are declared, shapes are asked for,
  and named types are defined, defined again and given methods, in any
  order.  Whatever the calls are,

    • no unnamed shape stands under two ids, and whoever asks for a shape
      gets the id that holds it;
    • a name that is declared for the first time gets an entry of its own;
    • an entry never changes, unless it is the named type that a call
      defines, and then it keeps its name;
    • a shape mentions older types only, if every id that is given to a
      call is predeclared or was returned by a call before.

  So pointers are followed, and types spelled, by going down: a walk
  through unnamed shapes ends, whatever the names stand for.  Names are
  not walked through.

  Each call is made of three kinds of steps: a name is added, a shape is
  interned, a declaration is changed.  `types_call` says so, once; what
  each of these steps keeps, every call keeps.

  Main statements: `kind_call`, `ordered_after` and
  `construction_orders_shapes`.
-/
import RpcSchema.Package.Basic
import RpcSchema.Proofs.Native.Formation
import RpcSchema.Sequence.Association

namespace RpcSchema.Draft

/-! ## §1. Calls. -/

/-- A call on a package under construction, or on its types. -/
inductive Call where
  | declare (name : String)
  | foreign (package name : String)
  | declareNamed (name : String) (package : Option String)
  | pointer (elem : NativeId)
  | slice (elem : NativeId)
  | map (key value : NativeId)
  | interface (shape : InterfaceShape)
  | struct (fields : List Field)
  | tuple (elems : List NativeId)
  | define (id underlying : NativeId)
  | defineStruct (id : NativeId) (fields : List Field)
  | defineInterface (id : NativeId) (shape : InterfaceShape)
  | addMethod (id : NativeId) (method : Method)
  deriving DecidableEq, Repr

/-- The unnamed shape a call asks for. -/
def Call.shape? : Call → Option NativeKind
  | .pointer elem => some (.pointer elem)
  | .slice elem => some (.slice elem)
  | .map key value => some (.map key value)
  | .interface shape => some (.interface shape)
  | .struct fields => some (.struct fields)
  | .tuple elems => some (.tuple elems)
  -- names and definitions create no unnamed shape
  | .declare _ | .foreign _ _ | .declareNamed _ _ | .define _ _ | .defineStruct _ _
  | .defineInterface _ _ | .addMethod _ _ => none

/-- The named type a call changes. -/
def Call.target? : Call → Option NativeId
  | .define id _ | .defineStruct id _ | .defineInterface id _ | .addMethod id _ => some id
  | .declare _ | .foreign _ _ | .declareNamed _ _ | .pointer _ | .slice _ | .map _ _
  | .interface _ | .struct _ | .tuple _ => none

/-- The ids that are given to a call. -/
def Call.arguments : Call → List NativeId
  | .declare _ | .foreign _ _ | .declareNamed _ _ => []
  | .pointer elem | .slice elem => [elem]
  | .map key value => [key, value]
  | .interface shape => mentions shape
  | .struct fields => mentions fields
  | .tuple elems => elems
  | .define id underlying => [id, underlying]
  | .defineStruct id fields => id :: mentions fields
  | .defineInterface id shape => id :: mentions shape
  | .addMethod id method => id :: mentions method

/-- A call that asks for a new named type: a name is declared once, and so is a name of another
package; a type that is declared past the names of the package is new in any case. -/
def Call.introduces (c : Call) (before : List Call) : Prop :=
  match c with
  | .declare _ | .foreign _ _ => c ∉ before
  | .declareNamed _ _ => True
  | _ => False

/-- What a call returns, and the draft after it. -/
def call (d : Draft) : Call → Option NativeId × Draft
  | .declare name => (some (d.declare name).1, (d.declare name).2)
  | .foreign package name => (some (d.foreign package name).1, (d.foreign package name).2)
  | .declareNamed name package => built (·.declareNamed name package)
  | .pointer elem => built (·.pointer elem)
  | .slice elem => built (·.slice elem)
  | .map key value => built (·.map key value)
  | .interface shape => built (·.interface shape)
  | .struct fields => built (·.struct fields)
  | .tuple elems => built (·.tuple elems)
  | .define id underlying => (none, d.define id underlying)
  | .defineStruct id fields => (none, d.defineStruct id fields)
  | .defineInterface id shape => (none, d.defineInterface id shape)
  | .addMethod id method => (none, d.addMethod id method)
where
  built (f : Universe → NativeId × Universe) : Option NativeId × Draft :=
    (some (d.build f).1, (d.build f).2)

/-- The draft after some calls, one after another. -/
def after (d : Draft) : List Call → Draft
  | [] => d
  | c :: rest => (d.call c).2.after rest

/-- The ids that the calls return. -/
def answers (d : Draft) : List Call → List NativeId
  | [] => []
  | c :: rest => (d.call c).1.toList ++ (d.call c).2.answers rest

/-- Every id that is given to a call is a given one, or was returned by a call before. -/
def Proper (d : Draft) (given : List NativeId) : List Call → Prop
  | [] => True
  | c :: rest => (∀ m ∈ c.arguments, m ∈ given) ∧
      (d.call c).2.Proper (given ++ (d.call c).1.toList) rest

instance decidableProper : ∀ (d : Draft) (given : List NativeId) (calls : List Call),
    Decidable (d.Proper given calls)
  | _, _, [] => .isTrue trivial
  | d, given, c :: rest =>
    have := decidableProper (d.call c).2 (given ++ (d.call c).1.toList) rest
    inferInstanceAs (Decidable (_ ∧ _))

variable {d : Draft} {c : Call} {id : NativeId} {k : NativeKind} {given : List NativeId}
  {calls : List Call}

/-- To ask for a shape is to intern it. -/
theorem call_of_shape (d : Draft) (h : c.shape? = some k) :
    d.call c = (some (d.types.intern k).1, { d with types := (d.types.intern k).2 }) := by
  cases c <;> cases h <;> rfl

theorem Call.isNamed_of_shape (h : c.shape? = some k) : k.isNamed = false := by
  cases c <;> cases h <;> rfl

/-! ## §2. The steps of a call. -/

/-- **What every step of a call keeps, the call keeps.**  A call adds named types, interns shapes
that are made of its arguments, and changes a declaration: that of its target, or of a type that
it has just added. -/
theorem types_call {P : Universe → Prop}
    (hname : ∀ u name package, P u → P (u.declareNamed name package).2)
    (hshape : ∀ u k, k.isNamed = false → (∀ m ∈ mentions k, m ∈ c.arguments) → P u →
      P (u.intern k).2)
    (hmodify : ∀ u id f, (c.target? = some id ∨ ¬ d.types.Has id) →
      (∀ decl : NamedType, (f decl).name = decl.name ∧ (f decl).package = decl.package) → P u →
      P (u.modifyNamed id f))
    (h : P d.types) : P (d.call c).2.types := by
  have hunderlying : ∀ u id shape, (c.target? = some id ∨ ¬ d.types.Has id) → P u →
      P (u.setUnderlying id shape) := fun u id shape hid =>
    hmodify u id _ hid fun _ => ⟨rfl, rfl⟩
  cases c with
  | declare name =>
    show P (d.declare name).2.types
    unfold declare
    split
    · exact h
    · exact hname _ _ _ h
  | foreign package name =>
    show P (d.foreign package name).2.types
    unfold foreign
    split
    · exact h
    · -- the shape goes to the type that was added a moment ago
      refine hunderlying _ (d.types.declareNamed name (some package)).1 _
        (Or.inr (Universe.not_has_push _ _)) ?_
      exact hshape _ (.struct []) rfl (fun m hm => absurd hm List.not_mem_nil) (hname _ _ _ h)
  | declareNamed name package => exact hname _ _ _ h
  | pointer elem => exact hshape _ (.pointer elem) rfl (fun _ hm => hm) h
  | slice elem => exact hshape _ (.slice elem) rfl (fun _ hm => hm) h
  | map key value => exact hshape _ (.map key value) rfl (fun _ hm => hm) h
  | interface shape => exact hshape _ (.interface shape) rfl (fun _ hm => hm) h
  | struct fields => exact hshape _ (.struct fields) rfl (fun _ hm => hm) h
  | tuple elems =>
    refine hshape _ (.tuple elems) rfl (fun m hm => ?_) h
    obtain ⟨e, he, hme⟩ := List.mem_flatMap.1 hm
    exact List.mem_singleton.1 hme ▸ he
  | define id underlying => exact hunderlying _ _ _ (Or.inl rfl) h
  | defineStruct id fields =>
    refine hunderlying _ _ _ (Or.inl rfl) (hshape _ (.struct fields) rfl (fun m hm => ?_) h)
    exact List.mem_cons_of_mem id hm
  | defineInterface id shape =>
    refine hunderlying _ _ _ (Or.inl rfl) (hshape _ (.interface shape) rfl (fun m hm => ?_) h)
    exact List.mem_cons_of_mem id hm
  | addMethod id method => exact hmodify _ _ _ (Or.inl rfl) (fun _ => ⟨rfl, rfl⟩) h

/-- A call takes no type away. -/
theorem size_le_call (d : Draft) (c : Call) : d.types.size ≤ (d.call c).2.types.size := by
  refine types_call (P := fun u => d.types.size ≤ u.size) ?_ ?_ ?_ (Nat.le_refl _)
  · intro u name package hle
    exact Nat.le_trans hle (u.size_le_push _)
  · intro u k _ _ hle
    exact Nat.le_trans hle (u.size_le_intern k)
  · intro u id f _ _ hle
    rwa [Universe.size_modifyNamed]

theorem size_le_after (d : Draft) (calls : List Call) :
    d.types.size ≤ (d.after calls).types.size := by
  induction calls generalizing d with
  | nil => exact Nat.le_refl _
  | cons c rest ih => exact Nat.le_trans (d.size_le_call c) (ih _)

/-! ## §3. Entries stay. -/

/-- Two declarations of one name in one package. -/
def SameName (k k' : NativeKind) : Prop :=
  ∃ decl decl' : NamedType, k = .named decl ∧ k' = .named decl' ∧ decl'.name = decl.name ∧
    decl'.package = decl.package

/-- Kinds of one name, in a chain. -/
theorem SameName.trans {k k' k'' : NativeKind} (h : SameName k k') (h' : SameName k' k'') :
    SameName k k'' := by
  obtain ⟨decl, decl', hk, hk', hname, hpackage⟩ := h
  obtain ⟨decl₁, decl'', hk₁, hk'', hname', hpackage'⟩ := h'
  obtain rfl := NativeKind.named.inj (hk'.symm.trans hk₁)
  exact ⟨decl, decl'', hk, hk'', hname'.trans hname, hpackage'.trans hpackage⟩

/-- **A call changes no entry but its target**, which keeps its name. -/
theorem kind_call (c : Call) (hid : d.types.Has id) :
    (d.call c).2.types.kind id = d.types.kind id ∨
      c.target? = some id ∧ SameName (d.types.kind id) ((d.call c).2.types.kind id) := by
  refine And.right (types_call (P := fun u => u.Has id ∧ (u.kind id = d.types.kind id ∨
    c.target? = some id ∧ SameName (d.types.kind id) (u.kind id))) ?_ ?_ ?_ ⟨hid, Or.inl rfl⟩)
  · rintro u name package ⟨hu, h⟩
    rw [Universe.declareNamed, Universe.kind_push_of_has _ hu]
    exact ⟨hu.of_le (by simp), h⟩
  · rintro u k _ _ ⟨hu, h⟩
    rw [Universe.kind_intern_of_has k hu]
    exact ⟨hu.of_le (u.size_le_intern k), h⟩
  · rintro u n f hn hf ⟨hu, h⟩
    refine ⟨Universe.has_modifyNamed.2 hu, ?_⟩
    by_cases hne : id = n
    · subst hne
      have htarget : c.target? = some id := hn.resolve_right (not_not_intro hid)
      rcases Universe.kind_modifyNamed u id f id with hold | ⟨decl, hk, hnew⟩
      · rwa [hold]
      · -- the declaration is changed once more
        have hsame : SameName (u.kind id) ((u.modifyNamed id f).kind id) :=
          ⟨decl, f decl, hk, hnew, hf decl⟩
        rcases h with h | ⟨_, h⟩
        · exact Or.inr ⟨htarget, h ▸ hsame⟩
        · exact Or.inr ⟨htarget, h.trans hsame⟩
    · rwa [Universe.kind_modifyNamed_of_ne f hne]

/-- **An entry stays what it is**, if it has no name or no call defines it.  By induction over the
calls. -/
theorem kind_after (hid : d.types.Has id)
    (h : (d.types.kind id).isNamed = false ∨ ∀ c ∈ calls, c.target? ≠ some id) :
    (d.after calls).types.kind id = d.types.kind id := by
  -- on the calls, none of which is about this type
  induction calls generalizing d with
  | nil => rfl
  | cons c rest ih =>
    have hstep : (d.call c).2.types.kind id = d.types.kind id := by
      rcases kind_call c hid with hold | ⟨htarget, decl, _, hk, _⟩
      · exact hold
      · rcases h with h | h
        · rw [hk] at h
          cases h
        · exact absurd htarget (h c List.mem_cons_self)
    refine (ih (hid.of_le (d.size_le_call c)) ?_).trans hstep
    rw [hstep]
    exact h.imp_right fun h c hc => h c (List.mem_cons_of_mem _ hc)

theorem single_call (h : d.types.Single) (c : Call) : (d.call c).2.types.Single := by
  refine types_call (fun u name package hu => ?_) (fun u k _ _ hu => hu.intern k)
    (fun u id f _ _ hu => hu.modifyNamed id f) h
  exact hu.push fun hk => by cases hk

/-- **Unnamed shapes stand there once.** -/
theorem single_after (h : d.types.Single) (calls : List Call) :
    (d.after calls).types.Single := by
  induction calls generalizing d with
  | nil => exact h
  | cons c rest ih => exact ih (single_call h c)

/-! ## §4. Names. -/

/-- A name is unknown after a call if it was so before and the call does not declare it. -/
theorem lookup?_call (d : Draft) (c : Call) (name : String) :
    (d.call c).2.lookup? name = none ↔ d.lookup? name = none ∧ c ≠ .declare name := by
  -- only a declaration adds to the names of the package
  cases c with
  | declare name' =>
    show (d.declare name').2.lookup? name = none ↔ _
    unfold declare
    split
    · rename_i n hn
      simp only [lookup?] at hn ⊢
      grind
    · rw [lookup?, Sequence.lookup_append_eq_none_iff, lookup?, ne_eq, ne_eq, Call.declare.injEq]
  | foreign package name' =>
    show (d.foreign package name').2.lookup? name = none ↔ _
    unfold foreign
    split <;> simp [lookup?]
  | _ => simp [call, call.built, lookup?, build, define, defineStruct, defineInterface, addMethod]

/-- A name of another package is unknown after a call if it was so and is not what the call asks
for. -/
theorem foreigns_call (d : Draft) (c : Call) (package name : String) :
    (d.call c).2.foreigns.lookup (package, name) = none ↔
      d.foreigns.lookup (package, name) = none ∧ c ≠ .foreign package name := by
  -- only one kind of call adds to the names of other packages
  cases c with
  | foreign package' name' =>
    show (d.foreign package' name').2.foreigns.lookup (package, name) = none ↔ _
    unfold foreign
    split
    · grind
    · rw [Sequence.lookup_append_eq_none_iff, ne_eq, ne_eq, Call.foreign.injEq, Prod.mk.injEq]
  | declare name' =>
    show (d.declare name').2.foreigns.lookup (package, name) = none ↔ _
    unfold declare
    split <;> simp
  | _ => simp [call, call.built, build, define, defineStruct, defineInterface, addMethod]

/-- A name is known exactly if it was declared. -/
theorem lookup?_after (d : Draft) (calls : List Call) (name : String) :
    (d.after calls).lookup? name = none ↔ d.lookup? name = none ∧ .declare name ∉ calls := by
  induction calls generalizing d with
  | nil => simp [after]
  | cons c rest ih =>
    rw [after, ih, lookup?_call, List.mem_cons, not_or, and_assoc, ne_comm]

theorem foreigns_after (d : Draft) (calls : List Call) (package name : String) :
    (d.after calls).foreigns.lookup (package, name) = none ↔
      d.foreigns.lookup (package, name) = none ∧ .foreign package name ∉ calls := by
  induction calls generalizing d with
  | nil => simp [after]
  | cons c rest ih =>
    rw [after, ih, foreigns_call, List.mem_cons, not_or, and_assoc, ne_comm]

/-- What a name stands for is there. -/
structure Grounded (d : Draft) : Prop where
  declared : ∀ x ∈ d.declared, d.types.Has x.2
  foreigns : ∀ x ∈ d.foreigns, d.types.Has x.2

theorem start_grounded (path : String) (name? : Option String) : (start path name?).Grounded :=
  ⟨fun _ hx => absurd hx List.not_mem_nil, fun _ hx => absurd hx List.not_mem_nil⟩

/-- **What a call returns is there.** -/
theorem Grounded.has_of_answer (h : d.Grounded) (hid : (d.call c).1 = some id) :
    (d.call c).2.types.Has id := by
  -- what is returned was found, or has just been added
  cases c with
  | declare name =>
    obtain rfl : (d.declare name).1 = id := Option.some.inj hid
    show (d.declare name).2.types.Has (d.declare name).1
    unfold declare
    split
    · rename_i n hn
      exact h.declared (name, n) (Sequence.mem_of_lookup hn)
    · exact Universe.has_push _
  | foreign package name =>
    obtain rfl : (d.foreign package name).1 = id := Option.some.inj hid
    show (d.foreign package name).2.types.Has (d.foreign package name).1
    unfold foreign
    split
    · rename_i n hn
      exact h.foreigns ((package, name), n) (Sequence.mem_of_lookup hn)
    · exact Universe.has_modifyNamed.2 ((Universe.has_push _).of_le (Universe.size_le_intern _ _))
  | declareNamed name package => exact Option.some.inj hid ▸ Universe.has_push _
  | pointer _ | slice _ | map _ _ | interface _ | struct _ | tuple _ =>
    exact Option.some.inj hid ▸ Universe.has_intern _
  | define _ _ | defineStruct _ _ | defineInterface _ _ | addMethod _ _ => cases hid

/-- **A draft stays grounded after a call.** -/
theorem Grounded.call (h : d.Grounded) (c : Call) : (d.call c).2.Grounded := by
  -- a type that is listed by the call is the one that it returns
  have hdeclared : ∀ x ∈ (d.call c).2.declared, x ∈ d.declared ∨ (d.call c).1 = some x.2 := by
    cases c with
    | declare name =>
      show ∀ x ∈ (d.declare name).2.declared, _ ∨ some (d.declare name).1 = _
      unfold declare
      split <;> grind
    | foreign package name =>
      show ∀ x ∈ (d.foreign package name).2.declared, _
      unfold foreign
      split <;> grind
    | _ => exact fun x hx => Or.inl hx
  have hforeigns : ∀ x ∈ (d.call c).2.foreigns, x ∈ d.foreigns ∨ (d.call c).1 = some x.2 := by
    cases c with
    | declare name =>
      show ∀ x ∈ (d.declare name).2.foreigns, _
      unfold declare
      split <;> grind
    | foreign package name =>
      show ∀ x ∈ (d.foreign package name).2.foreigns, _ ∨ some (d.foreign package name).1 = _
      unfold foreign
      split <;> grind
    | _ => exact fun x hx => Or.inl hx
  constructor
  · intro x hx
    rcases hdeclared x hx with hold | hnew
    · exact (h.declared x hold).of_le (d.size_le_call c)
    · exact h.has_of_answer hnew
  · intro x hx
    rcases hforeigns x hx with hold | hnew
    · exact (h.foreigns x hold).of_le (d.size_le_call c)
    · exact h.has_of_answer hnew

/-- **What the calls have returned is there.** -/
theorem Grounded.has_of_mem_answers (h : d.Grounded) (hid : id ∈ d.answers calls) :
    (d.after calls).types.Has id := by
  induction calls generalizing d with
  | nil => exact absurd hid List.not_mem_nil
  | cons c rest ih =>
    rcases List.mem_append.1 hid with hid | hid
    · exact (h.has_of_answer (Option.mem_toList.1 hid)).of_le (size_le_after _ rest)
    · exact ih (h.call c) hid

/-- **A call that asks for a new named type gets one.** -/
theorem exists_new (path : String) (name? : Option String) (hc : c.introduces calls) :
    ∃ id, (((start path name?).after calls).call c).1 = some id ∧
      ¬ ((start path name?).after calls).types.Has id ∧
      ((((start path name?).after calls).call c).2.types.kind id).isNamed = true := by
  have hkind : ∀ (u : Universe) name package, (u.declareNamed name package).2.kind
      (u.declareNamed name package).1 = .named ⟨name, package, .undefined, []⟩ :=
    fun u _ _ => u.kind_push _
  -- the name is on no list, so a type is added for it
  cases c with
  | declare name =>
    have hnone : ((start path name?).after calls).lookup? name = none :=
      (lookup?_after _ _ _).2 ⟨rfl, hc⟩
    simp only [call, declare, hnone]
    refine ⟨_, rfl, Universe.not_has_push _ _, ?_⟩
    rw [hkind]
    rfl
  | foreign package name =>
    have hnone : ((start path name?).after calls).foreigns.lookup (package, name) = none :=
      (foreigns_after _ _ _ _).2 ⟨rfl, hc⟩
    simp only [call, foreign, hnone]
    refine ⟨_, rfl, Universe.not_has_push _ _, ?_⟩
    rw [Universe.struct, Universe.kind_defineShape_self (hkind _ name (some package))]
    rfl
  | declareNamed name package =>
    refine ⟨_, rfl, Universe.not_has_push _ (.named ⟨name, package, .undefined, []⟩), ?_⟩
    rw [show (call _ (.declareNamed name package)).2.types
      = (Universe.declareNamed _ name package).2 from rfl]
    exact congrArg NativeKind.isNamed (hkind _ name package)
  | _ => exact hc.elim

/-! ## §5. Ids descend. -/

/-- A call whose arguments are there adds shapes of older types only: the arguments are there
before its first step, and so they are before each. -/
theorem ordered_call (h : d.types.Ordered) (hargs : ∀ m ∈ c.arguments, d.types.Has m) :
    (d.call c).2.types.Ordered := by
  refine And.right (types_call (P := fun u => d.types.size ≤ u.size ∧ u.Ordered) ?_ ?_ ?_
    ⟨Nat.le_refl _, h⟩)
  · rintro u name package ⟨hle, hu⟩
    exact ⟨Nat.le_trans hle (u.size_le_push _), hu.push fun m hm => absurd hm List.not_mem_nil⟩
  · -- a shape refers to its arguments, which were handed out before
    rintro u k hname hk ⟨hle, hu⟩
    refine ⟨Nat.le_trans hle (u.size_le_intern k), hu.intern fun m hm => ?_⟩
    rw [NativeKind.stored_of_unnamed hname] at hm
    exact (hargs m (hk m hm)).of_le hle
  · rintro u n f _ _ ⟨hle, hu⟩
    exact ⟨by rwa [Universe.size_modifyNamed], hu.modifyNamed (fun _ => rfl) n f⟩

/-- **Shapes mention older types**, if the arguments of all calls are known ids.  By induction over
the calls: what is known is there, and what a call returns is known from then on. -/
theorem ordered_after (hd : d.Grounded) (hordered : d.types.Ordered)
    (hgiven : ∀ m ∈ given, d.types.Has m) (h : d.Proper given calls) :
    (d.after calls).types.Ordered := by
  -- on the calls, with the ids given so far
  induction calls generalizing d given with
  | nil => exact hordered
  | cons c rest ih =>
    obtain ⟨hargs, hrest⟩ := h
    refine ih (hd.call c) (ordered_call hordered fun m hm => hgiven m (hargs m hm)) ?_ hrest
    intro m hm
    rcases List.mem_append.1 hm with hm | hm
    · exact (hgiven m hm).of_le (d.size_le_call c)
    · exact hd.has_of_answer (Option.mem_toList.1 hm)

/-- Freezing changes what names stand for, and no shape. -/
theorem ordered_collapse {hops : Nat} {u v : Universe} {ids : List NativeId} (hu : u.Ordered)
    (h : collapse hops u ids = .ok v) : v.Ordered := by
  induction ids generalizing u with
  | nil =>
    cases h
    exact hu
  | cons n rest ih =>
    unfold collapse at h
    split at h
    · cases h
    · exact ih (hu.modifyNamed (fun _ => rfl) _ _) h

/-- A package that was finished has shapes of older types. -/
theorem ordered_finish {p : Package} (hd : d.types.Ordered) (h : d.finish = .ok p) :
    p.types.Ordered := by
  unfold finish at h
  split at h
  · cases h
  · split at h
    · cases h
    · rename_i u hu
      cases h
      exact ordered_collapse hd hu

/-! ## §6. Every universe that is built. -/

theorem has_of_mem_predeclared (d : Draft) (hsize : Universe.predeclared.size ≤ d.types.size)
    (hid : id ∈ Universe.predeclared.ids) : d.types.Has id := by
  obtain ⟨i, hi, rfl⟩ := List.mem_map.1 hid
  exact ⟨i, Nat.lt_of_lt_of_le (List.mem_range.1 hi) hsize, rfl⟩

/-- A shape is found where it stands, however much later. -/
theorem intern_after (h : d.types.Single) (hk : k.isNamed = false) (hid : d.types.Has id)
    (hkind : d.types.kind id = k) (later : List Call) :
    (d.after later).types.intern k = (id, (d.after later).types) := by
  refine (single_after h later).intern_eq hk (hid.of_le (d.size_le_after later)) ?_
  rw [kind_after hid (Or.inl (by rw [hkind, hk])), hkind]

/-- **A call for a shape returns the one id that holds it**, adds it only if there is none, and
returns the same id ever after. -/
theorem answer_of_shape (h : d.types.Single) (hc : c.shape? = some k) :
    ∃ id, (d.call c).1 = some id ∧
      (∀ a, (d.call c).2.types.Has a ∧ (d.call c).2.types.kind a = k ↔ a = id) ∧
      (d.types.Has id → (d.call c).2 = d) ∧
      ∀ later, (((d.call c).2.after later).call c).1 = some id := by
  have hname := Call.isNamed_of_shape hc
  have hhas : (d.types.intern k).2.Has (d.types.intern k).1 := Universe.has_intern k
  have hkind := d.types.kind_intern k
  rw [call_of_shape d hc]
  refine ⟨(d.types.intern k).1, rfl, fun a => ?_, fun hid => ?_, fun later => ?_⟩
  · constructor
    · rintro ⟨ha, hka⟩
      exact h.intern k a _ ha hhas (by rw [hka, hname]) (hka.trans hkind.symm)
    · rintro rfl
      exact ⟨hhas, hkind⟩
  · -- a shape that is there is found, and nothing is added
    rcases d.types.intern_cases k with ⟨_, _, _, hi⟩ | ⟨_, hi⟩
    · rw [hi]
    · rw [hi] at hid
      exact absurd hid (Universe.not_has_push _ k)
  · rw [call_of_shape _ hc, intern_after (d := { d with types := (d.types.intern k).2 })
      (h.intern k) hname hhas hkind]

/-- The empty interface has its fixed id. -/
theorem emptyInterface_after (path : String) (name? : Option String) (calls : List Call) :
    ((start path name?).after calls).call (.interface .empty)
      = (some .emptyInterface, (start path name?).after calls) := by
  have hhas : (start path name?).types.Has .emptyInterface :=
    has_of_mem_predeclared _ (Nat.le_refl _) (List.mem_map.2 ⟨19, by decide, rfl⟩)
  rw [call_of_shape _ (c := .interface .empty) rfl,
    intern_after (d := start path name?) (k := .interface .empty) Universe.predeclared_single rfl
      hhas rfl]

/-- **Shapes stand there once and mention older types only, so that walks through them end.**

Let a package be built by any calls whose arguments are predeclared ids or were returned by calls
before.  Then:

* no two ids hold the same unnamed shape; a call for a shape returns the one id that holds it, adds
  it only if there is none, and returns the same id ever after; the empty interface has its fixed
  id;
* the first declaration of a name, the first mention of a name of another package, and every
  declaration past the names of the package gets an id that was not there and that no call has
  returned;
* a further call changes no entry, except that a named type that it defines or gives a method gets
  another declaration of the same name in the same package;
* what an unnamed shape mentions, in the signatures of its methods too, is older than the shape;
* from every type pointers lead to one that is none, and every type has a spelling, without any
  budget: `deref` and `spell` return these.  Both are so in the package that the draft is frozen
  to, whose exported methods are those of the type behind the pointers. -/
theorem construction_orders_shapes (path : String) (name? : Option String) (calls : List Call)
    (hproper : (start path name?).Proper Universe.predeclared.ids calls) :
    let d := (start path name?).after calls
    ((∀ a b, d.types.Has a → d.types.Has b → (d.types.kind a).isNamed = false →
        d.types.kind a = d.types.kind b → a = b) ∧
      (∀ c k, c.shape? = some k → ∃ id, (d.call c).1 = some id ∧
        (∀ a, (d.call c).2.types.Has a ∧ (d.call c).2.types.kind a = k ↔ a = id) ∧
        (d.types.Has id → (d.call c).2 = d) ∧
        ∀ later, (((d.call c).2.after later).call c).1 = some id) ∧
      d.call (.interface .empty) = (some .emptyInterface, d)) ∧
    (∀ c, c.introduces calls → ∃ id, (d.call c).1 = some id ∧ ¬ d.types.Has id ∧
      id ∉ Universe.predeclared.ids ∧ id ∉ (start path name?).answers calls ∧
      ((d.call c).2.types.kind id).isNamed = true) ∧
    (∀ c id, d.types.Has id → (d.call c).2.types.Has id ∧
      ((d.call c).2.types.kind id = d.types.kind id ∨
        c.target? = some id ∧ SameName (d.types.kind id) ((d.call c).2.types.kind id))) ∧
    (∀ i, (d.types.kind (.entry i)).isNamed = false →
      ∀ m ∈ mentions (d.types.kind (.entry i)), ∃ j, j < i ∧ m = .entry j) ∧
    (∀ id, (∀ t, d.types.Behind id t ↔ t = d.types.deref id) ∧
      ∀ text, d.types.Spelled id text ↔ text = d.types.spell id) ∧
    ∀ p, d.finish = .ok p → ∀ id,
      (∀ t, p.types.Behind id t ↔ t = p.types.deref id) ∧
      (∀ text, p.types.Spelled id text ↔ text = p.types.spell id) ∧
      ∀ t, p.types.Behind id t →
        p.exportedMethods id = ((p.types.named? t).elim [] (·.methods)).filter (·.isExported) := by
  intro d
  have hsize : Universe.predeclared.size ≤ d.types.size := size_le_after (start path name?) calls
  have hsingle : d.types.Single := single_after Universe.predeclared_single calls
  -- every call puts a shape behind what it mentions
  have hordered : d.types.Ordered :=
    ordered_after (start_grounded path name?) Universe.predeclared_ordered
      (fun m => has_of_mem_predeclared (start path name?) (Nat.le_refl _)) hproper
  refine ⟨⟨hsingle, fun c k hc => answer_of_shape hsingle hc, emptyInterface_after path name? calls⟩,
    ?_, ?_, ?_, ?_, ?_⟩
  · intro c hc
    obtain ⟨id, hanswer, hnew, hname⟩ := exists_new path name? hc
    exact ⟨id, hanswer, hnew, fun hid => hnew (has_of_mem_predeclared d hsize hid),
      fun hid => hnew ((start_grounded path name?).has_of_mem_answers hid), hname⟩
  · intro c id hid
    exact ⟨hid.of_le (d.size_le_call c), kind_call c hid⟩
  · intro i hname m hm
    exact hordered i m (by rwa [NativeKind.stored_of_unnamed hname])
  · intro id
    exact ⟨fun _ => hordered.layered.behind_iff, fun _ => hordered.layered.spelled_iff⟩
  · intro p hp id
    have hlayered := (ordered_finish hordered hp).layered
    refine ⟨fun _ => hlayered.behind_iff, fun _ => hlayered.spelled_iff, fun t ht => ?_⟩
    obtain rfl := hlayered.behind_iff.1 ht
    unfold Package.exportedMethods
    cases p.types.named? (p.types.deref id) <;> rfl

/-- A list whose node is defined a second time, as a pointer to itself: the pointer is followed to
the node, which is where pointers end, and a shape that is built later is spelled through it. -/
theorem construction_orders_shapes_node :
    let calls : List Call := [.declare "Node", .pointer (.entry 21),
      .defineStruct (.entry 21) [⟨"next", .entry 22, false⟩],
      .addMethod (.entry 21) ⟨"Next", ⟨[], [⟨none, .entry 22⟩], false⟩⟩,
      .define (.entry 21) (.entry 22), .foreign "example.com/log" "Entry", .slice (.entry 22),
      .map (.entry 24) (.entry 26)]
    let d := (start "example.com/list" none).after calls
    (start "example.com/list" none).Proper Universe.predeclared.ids calls ∧
      d.types.Behind (.entry 22) (.entry 21) ∧
      d.types.Spelled (.entry 27) "map[log.Entry][]*list.Node" ∧
      ∃ p, d.finish = .ok p ∧ (p.exportedMethods (.entry 22)).map (·.name) = ["Next"] := by
  intro calls d
  have hproper : (start "example.com/list" none).Proper Universe.predeclared.ids calls := by
    decide +kernel
  obtain ⟨_, _, _, _, hwalks, hfrozen⟩ := construction_orders_shapes _ _ _ hproper
  refine ⟨hproper, ((hwalks _).1 _).2 ?_, ((hwalks _).2 _).2 ?_, ?_⟩
  · decide +kernel
  · decide +kernel
  · -- the construction is finished, and the walks over the frozen types are compared
    have hfinish : (d.finish.toOption.map fun p => (p.types.deref (.entry 22),
        ((p.types.named? (.entry 21)).elim [] (·.methods))))
          = some (.entry 21, [⟨"Next", ⟨[], [⟨none, .entry 22⟩], false⟩⟩]) := by
      decide +kernel
    cases hp : d.finish with
    | error e =>
      rw [hp] at hfinish
      cases hfinish
    | ok p =>
      rw [hp] at hfinish
      obtain ⟨hderef, hmethods⟩ := Prod.mk.inj (Option.some.inj hfinish)
      obtain ⟨hbehind, _, hexported⟩ := hfrozen p hp (.entry 22)
      refine ⟨p, rfl, ?_⟩
      rw [hexported (.entry 21) ((hbehind _).2 hderef.symm), hmethods]
      decide

end RpcSchema.Draft
