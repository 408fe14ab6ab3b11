/-
  RpcSchema.Proofs.Conversion.Steps
  ─────────────────────────────────
  **A CONVERSION ASKS FOR ITS PARTS, THEN ASSEMBLES THEM.**

  The conversion of a native type is one function per shape.  All of them
  have one form: the native names the types it is made of (`steps`, each
  with the place an error is reported at), these are converted from left
  to right, and `assemble` makes the entry out of their ids:

      shape n  =  (steps n).mapM visit  >>=  assemble n

  So what is proved of every conversion is proved once, over `steps`, and
  what a shape adds is a fact about `assemble`.

  Main statements: `shape_eq` (the form above) and the `yields_*` lemmas,
  which say what a step that succeeds has done.
-/
import RpcSchema.Conversion.Convert

namespace RpcSchema

/-- A result that can be read off is a success. -/
theorem eq_ok_of_toOption {ε α : Type} {x : Except ε α} {a : α} (h : x.toOption = some a) :
    x = .ok a := by
  cases x with
  | error e => cases h
  | ok b => rw [Option.some.inj h]

/-! ## §1. Steps that succeed. -/

namespace Conversion

variable {α β : Type}

/-- What a step does to a pool. -/
def outcome (x : Conversion α) (p : Pool) : Except CompileError α × Pool :=
  x.run p

/-- Started in `p`, the step succeeds with `a` and leaves `q`. -/
def Yields (x : Conversion α) (p : Pool) (a : α) (q : Pool) : Prop :=
  x.outcome p = (.ok a, q)

theorem ok_pair_inj {a b : α} {p q : Pool} :
    ((.ok a, p) : Except CompileError α × Pool) = (.ok b, q) ↔ b = a ∧ q = p := by
  rw [Prod.mk.injEq, Except.ok.injEq, eq_comm (a := a), eq_comm (a := p)]

theorem error_pair_ne {e : CompileError} {a : α} {p q : Pool} :
    ((.error e, p) : Except CompileError α × Pool) ≠ (.ok a, q) := by
  intro h
  cases (Prod.mk.inj h).1

/-- What a step comes to can be computed. -/
theorem yields_iff_toOption {x : Conversion α} {p q : Pool} {a : α} :
    x.Yields p a q ↔ (x.outcome p).1.toOption = some a ∧ (x.outcome p).2 = q := by
  unfold Yields
  rcases x.outcome p with ⟨_ | b, r⟩
  · simp [Except.toOption]
  · simp [Except.toOption]

theorem yields_pure {a b : α} {p q : Pool} :
    (pure a : Conversion α).Yields p b q ↔ b = a ∧ q = p :=
  ok_pair_inj

theorem not_yields_throw {e : CompileError} {p q : Pool} {a : α} :
    ¬ (throw e : Conversion α).Yields p a q :=
  error_pair_ne

/-- A run of a sequence: the first step, and the rest on what it leaves. -/
theorem outcome_bind (x : Conversion α) (f : α → Conversion β) (p : Pool) :
    (x >>= f).outcome p =
      match x.outcome p with
      | (.ok a, r) => (f a).outcome r
      | (.error e, r) => (.error e, r) := by
  show ((ExceptT.bindCont f : Except CompileError α → StateM Pool _) (x.outcome p).1
    (x.outcome p).2 : Except CompileError β × Pool) = _
  rcases x.outcome p with ⟨_ | a, r⟩
  · rfl
  · rfl

/-- **A sequence yields what its second step does from where the first led.** -/
theorem yields_bind {x : Conversion α} {f : α → Conversion β} {p q : Pool} {b : β} :
    (x >>= f).Yields p b q ↔ ∃ a r, x.Yields p a r ∧ (f a).Yields r b q := by
  unfold Yields
  rw [outcome_bind]
  rcases x.outcome p with ⟨e | a, r⟩
  · -- the first step fails, and so does the sequence
    constructor
    · intro h
      exact absurd h error_pair_ne
    · rintro ⟨a', r', h, _⟩
      exact absurd h error_pair_ne
  · constructor
    · intro h
      exact ⟨a, r, rfl, h⟩
    · rintro ⟨a', r', h, hf⟩
      obtain ⟨rfl, rfl⟩ := ok_pair_inj.1 h
      exact hf

theorem yields_add {f : Pool → EntryId × Pool} {p q : Pool} {id : EntryId} :
    (add f).Yields p id q ↔ id = (f p).1 ∧ q = (f p).2 :=
  ok_pair_inj

theorem yields_read {f : Pool → α} {p q : Pool} {a : α} :
    (read f).Yields p a q ↔ a = f p ∧ q = p :=
  ok_pair_inj

/-- A place does not change what is yielded. -/
theorem yields_within {x : Conversion α} {place : Place} {p q : Pool} {a : α} :
    (x.within place).Yields p a q ↔ x.Yields p a q := by
  show (match x.outcome p with
      | (.ok a, r) => (.ok a, r)
      | (.error e, r) => (.error (e.within place), r)) = ((.ok a, q) : Except CompileError α × Pool)
    ↔ x.outcome p = (.ok a, q)
  rcases x.outcome p with ⟨e | b, r⟩
  · exact iff_of_false error_pair_ne error_pair_ne
  · exact Iff.rfl

/-- **A native that is begun yields what its body does, and is finished with it.** -/
theorem yields_inSlot {x : Conversion EntryId} {n : NativeId} {p q : Pool} {id : EntryId} :
    (inSlot n x).Yields p id q ↔ ∃ r, x.Yields (p.begin n) id r ∧ q = r.finish n id := by
  unfold Yields
  show (match x.outcome (p.begin n) with
      | (.ok id, r) => (.ok id, r.finish n id)
      | (.error e, r) => (.error e, r.abandon n))
        = ((.ok id, q) : Except CompileError EntryId × Pool)
    ↔ ∃ r, x.outcome (p.begin n) = (.ok id, r) ∧ q = r.finish n id
  rcases x.outcome (p.begin n) with ⟨e | a, r⟩
  · -- the body fails, and the native is given up
    constructor
    · intro h
      exact absurd h error_pair_ne
    · rintro ⟨r', h, _⟩
      exact absurd h error_pair_ne
  · constructor
    · intro h
      obtain ⟨rfl, rfl⟩ := ok_pair_inj.1 h
      exact ⟨r, rfl, rfl⟩
    · rintro ⟨r', h, rfl⟩
      obtain ⟨rfl, rfl⟩ := ok_pair_inj.1 h
      rfl

section Memoized

variable {x : Conversion EntryId} {n : NativeId} {p q : Pool} {id t : EntryId}

/-- A native without a slot is converted in a slot of its own. -/
theorem memoized_of_unmet (hslot : p.slot n = none) :
    (memoized n x).outcome p = (inSlot n x).outcome p := by
  simp only [outcome, memoized, ExceptT.run_mk, Pool.lookup, hslot]

/-- It yields what its conversion does, with the slot finished. -/
theorem yields_memoized_of_unmet (hslot : p.slot n = none) :
    (memoized n x).Yields p id q ↔ ∃ r, x.Yields (p.begin n) id r ∧ q = r.finish n id := by
  unfold Yields
  rw [memoized_of_unmet hslot]
  exact yields_inSlot

/-- A finished native yields its result. -/
theorem yields_memoized_of_done (hslot : p.slot n = some (.done t)) :
    (memoized n x).Yields p id q ↔ id = t ∧ q = p := by
  have hrun : (memoized n x).outcome p = (.ok t, p) := by
    simp only [outcome, memoized, ExceptT.run_mk, Pool.lookup, hslot]
  unfold Yields
  rw [hrun]
  exact ok_pair_inj

/-- A native in progress yields a reference to it. -/
theorem yields_memoized_of_inProgress (hslot : p.slot n = some .inProgress) :
    (memoized n x).Yields p id q ↔
      id = (p.intern (.reference n)).1 ∧ q = (p.intern (.reference n)).2 := by
  have hrun : (memoized n x).outcome p
      = (.ok (p.intern (.reference n)).1, (p.intern (.reference n)).2) := by
    simp only [outcome, memoized, ExceptT.run_mk, Pool.lookup, hslot]
  unfold Yields
  rw [hrun]
  exact ok_pair_inj

end Memoized

/-- Started in `p`, the step fails with `e`. -/
def Fails (x : Conversion α) (p : Pool) (e : CompileError) : Prop :=
  (x.outcome p).1 = .error e

theorem fails_throw (e : CompileError) (p : Pool) : (throw e : Conversion α).Fails p e :=
  rfl

/-- A sequence fails where its first step does. -/
theorem Fails.bind {x : Conversion α} {p : Pool} {e : CompileError} (h : x.Fails p e)
    (f : α → Conversion β) : (x >>= f).Fails p e := by
  unfold Fails at h ⊢
  rw [outcome_bind]
  rcases hx : x.outcome p with ⟨e' | a, r⟩
  · rw [hx] at h
    obtain rfl : e' = e := Except.error.inj h
    rfl
  · rw [hx] at h
    cases h

/-- A sequence fails if its second step does. -/
theorem Yields.bind_fails {x : Conversion α} {f : α → Conversion β} {p r : Pool} {a : α}
    {e : CompileError} (h : x.Yields p a r) (hf : (f a).Fails r e) : (x >>= f).Fails p e := by
  unfold Fails at hf ⊢
  rw [outcome_bind, show x.outcome p = (.ok a, r) from h]
  exact hf

/-- A native without a slot fails where its conversion does. -/
theorem Fails.memoized {x : Conversion EntryId} {n : NativeId} {p : Pool} {e : CompileError}
    (hslot : p.slot n = none) (h : x.Fails (p.begin n) e) :
    (Conversion.memoized n x).Fails p e := by
  unfold Fails at h ⊢
  rw [memoized_of_unmet hslot]
  unfold outcome inSlot at *
  rw [ExceptT.run_mk]
  rcases hx : x.run (p.begin n) with ⟨e' | a, r⟩
  · -- the slot is given up and the error kept
    rw [hx] at h
    exact h
  · rw [hx] at h
    cases h

theorem yields_mapM_nil {f : α → Conversion β} {p q : Pool} {bs : List β} :
    (([] : List α).mapM f).Yields p bs q ↔ bs = [] ∧ q = p := by
  rw [List.mapM_nil]
  exact yields_pure

/-- Along a list the first element goes first. -/
theorem yields_mapM_cons {f : α → Conversion β} {a : α} {l : List α} {p q : Pool}
    {bs : List β} :
    ((a :: l).mapM f).Yields p bs q ↔
      ∃ b r rest, (f a).Yields p b r ∧ (l.mapM f).Yields r rest q ∧ bs = b :: rest := by
  rw [List.mapM_cons, yields_bind]
  constructor
  · rintro ⟨b, r, hb, h⟩
    obtain ⟨rest, r', hrest, h⟩ := yields_bind.1 h
    obtain ⟨rfl, rfl⟩ := yields_pure.1 h
    exact ⟨b, r, rest, hb, hrest, rfl⟩
  · rintro ⟨b, r, rest, hb, hrest, rfl⟩
    exact ⟨b, r, hb, yields_bind.2 ⟨rest, q, hrest, yields_pure.2 ⟨rfl, rfl⟩⟩⟩

/-- Results that only combine an element with its conversion are combined at the end. -/
theorem mapM_combine {γ : Type} (f : α → Conversion β) (h : α → β → γ) (l : List α) :
    (l.mapM fun a => do return h a (← f a)) = do
      let bs ← l.mapM f
      return List.zipWith h l bs := by
  induction l with
  | nil => simp
  | cons a l ih =>
    simp only [List.mapM_cons, ih, bind_assoc, pure_bind, List.zipWith_cons_cons]

end Conversion

/-! ## §2. Parts and assembly. -/

namespace Source

open Conversion

variable (s : Source)

/-- The fields of a struct that its message has. -/
def shownFields (decl : NamedType) (fs : List Field) : List Field :=
  if s.fieldless.contains decl.name then [] else fs.filter (·.isExported)

/-- The native types that a conversion asks for, in order, each with the place that errors in it
are reported at. -/
def steps (n : NativeId) : List (Option Place × NativeId) :=
  match s.types.kind n with
  | .pointer elem | .slice elem => [(none, elem)]
  | .map key value => [(none, key), (none, value)]
  | .named decl =>
    if s.types.isError n then []
    else
      match s.types.kind decl.underlying with
      | .struct fs =>
        (s.shownFields decl fs).map fun f => (some (.field f.name decl.name), f.type)
      | .interface _ =>
        -- in the order in which they are converted
        (s.package.implementations n).map fun i =>
          (some (.implementation (s.types.spell i) decl.name), i)
      | .pointer _ | .slice _ | .map _ _ => [(none, decl.underlying)]
      | _ => []
  | _ => []

/-- The native types that the conversion of a native asks for, in order. -/
def edges (n : NativeId) : List NativeId :=
  (s.steps n).map (·.2)

/-- Converts a part, and reports an error in it at its place. -/
def visit (recur : NativeId → Conversion EntryId) : Option Place × NativeId → Conversion EntryId
  | (none, n) => recur n
  | (some place, n) => (recur n).within place

/-- A map of converted types, if the key can be one. -/
def assembleMap (n : NativeId) (key value : EntryId) : Conversion EntryId := do
  if ← read fun p => isKey (p.resolved key) then add (·.map key value)
  else throw (.unsupportedMapKey (← read (·.display key)) (s.types.spell n))

/-- The entry of a named type whose parts are converted. -/
def assembleNamed (n : NativeId) (decl : NamedType) (ids : List EntryId) :
    Conversion EntryId :=
  if s.types.isError n then add (·.optional (.scalar .string))
  else
    match s.types.kind decl.underlying with
    | .struct fs =>
      add (·.message decl.name (List.zipWith (fun f id => ⟨f.name, id⟩)
        (s.shownFields decl fs) ids))
    | .interface _ =>
      if (s.types.methodSet n).isEmpty then return .any
      else add (·.define (.interface decl.name ids))
    | .basic kind =>
      match s.enums.lookup n with
      | some e => add (·.define e.definition)
      | none => s.scalar n kind
    -- the one part is the underlying container
    | .pointer _ | .slice _ | .map _ _ => s.close n decl (ids.headD .absent)
    | kind => s.unsupported n kind

/-- The entry of a native type whose parts are converted. -/
def assemble (n : NativeId) (ids : List EntryId) : Conversion EntryId :=
  match s.types.kind n with
  | .basic kind => s.scalar n kind
  | .pointer _ => return ids.headD .absent
  | .slice _ => add (·.array (ids.headD .absent))
  | .map _ _ => s.assembleMap n (ids.getD 0 .absent) (ids.getD 1 .absent)
  | .named decl => s.assembleNamed n decl ids
  | .interface shape =>
    if (s.types.methodSet n).isEmpty then return .any
    else s.unsupported n (.interface shape)
  | kind => s.unsupported n kind

/-! ## §3. The form of a conversion. -/

/-- Fields are converted in their order, and named afterwards. -/
theorem fields_eq (recur : NativeId → Conversion EntryId) (owner : String) (fs : List Field) :
    fields recur owner fs = do
      let ids ← ((fs.filter (·.isExported)).map fun f =>
        (some (Place.field f.name owner), f.type)).mapM (visit recur)
      return List.zipWith (fun f id => ⟨f.name, id⟩) (fs.filter (·.isExported)) ids := by
  unfold fields
  rw [List.mapM_map]
  exact mapM_combine (fun f : Field => (recur f.type).within (.field f.name owner))
    (fun f id => (⟨f.name, id⟩ : MessageField)) _

/-- Implementations are converted in their order. -/
theorem implementations_eq (recur : NativeId → Conversion EntryId) (n : NativeId)
    (name : String) :
    s.implementations recur n name
      = ((s.package.implementations n).map fun i =>
          (some (Place.implementation (s.types.spell i) name), i)).mapM (visit recur) := by
  rw [List.mapM_map]
  rfl

/-- **A named type is converted part by part, then assembled.** -/
theorem named_eq (recur : NativeId → Conversion EntryId) (n : NativeId) (decl : NamedType)
    (hn : s.types.kind n = .named decl) :
    s.named recur n decl = (s.steps n).mapM (visit recur) >>= s.assembleNamed n decl := by
  unfold named steps assembleNamed
  simp only [hn]
  split
  · -- `error` has no parts
    simp
  · cases hu : s.types.kind decl.underlying with
    | struct fs =>
      simp only [shownFields]
      split
      · simp
      · simp only [fields_eq, bind_assoc, pure_bind]
    | interface asked =>
      simp only
      split
      · -- an interface that asks for nothing is not looked up, and has no implementations here
        rename_i hempty
        rw [Package.implementations_of_empty (List.isEmpty_iff.1 hempty)]
        simp
      · simp only [implementations_eq]
    | basic kind =>
      -- an enumeration or a scalar, without parts
      rw [List.mapM_nil, pure_bind]
      cases s.enums.lookup n with
      | none => rfl
      | some e => rfl
    | pointer elem => simp [visit]
    | slice elem => simp [visit]
    | map key value => simp [visit]
    | named decl' => simp
    | tuple elems => simp

/-- **A conversion asks for its parts, then assembles them.** -/
theorem shape_eq (recur : NativeId → Conversion EntryId) (n : NativeId) :
    s.shape recur n (s.types.kind n) = (s.steps n).mapM (visit recur) >>= s.assemble n := by
  cases hn : s.types.kind n with
  | basic kind => simp [shape, steps, assemble, hn]
  | pointer elem => simp [shape, steps, assemble, hn, visit]
  | slice elem => simp [shape, steps, assemble, hn, visit]
  | map key value => simp [shape, steps, assemble, assembleMap, map, hn, visit]
  -- a named type is treated by what is underneath
  | named decl =>
    have hasm : s.assemble n = s.assembleNamed n decl := by
      funext ids
      simp only [assemble, hn]
    rw [hasm]
    exact s.named_eq recur n decl hn
  | interface asked => simp only [shape, steps, assemble, hn, List.mapM_nil, pure_bind]
  | struct fs => simp [shape, steps, assemble, hn]
  | tuple elems => simp [shape, steps, assemble, hn]

/-- A part converts as its native type does. -/
theorem yields_visit {recur : NativeId → Conversion EntryId} {part : Option Place × NativeId}
    {p q : Pool} {id : EntryId} :
    (visit recur part).Yields p id q ↔ (recur part.2).Yields p id q := by
  rcases part with ⟨_ | place, n⟩
  · exact Iff.rfl
  · exact yields_within

/-- The places at which parts are visited do not change what is yielded. -/
theorem yields_mapM_visit {recur : NativeId → Conversion EntryId}
    {parts : List (Option Place × NativeId)} {p q : Pool} {ids : List EntryId} :
    (parts.mapM (visit recur)).Yields p ids q ↔
      ((parts.map (·.2)).mapM recur).Yields p ids q := by
  induction parts generalizing p ids with
  | nil => exact Iff.rfl
  | cons part rest ih =>
    rw [List.map_cons, yields_mapM_cons, yields_mapM_cons]
    simp only [yields_visit, ih]

/-- What a conversion that succeeds has done. -/
theorem yields_shape {recur : NativeId → Conversion EntryId} {n : NativeId} {p q : Pool}
    {id : EntryId} :
    (s.shape recur n (s.types.kind n)).Yields p id q ↔
      ∃ ids r, ((s.edges n).mapM recur).Yields p ids r ∧ (s.assemble n ids).Yields r id q := by
  rw [shape_eq, yields_bind]
  simp only [yields_mapM_visit, edges]

end Source

end RpcSchema
