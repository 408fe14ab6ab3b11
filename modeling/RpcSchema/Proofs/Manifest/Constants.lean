/-
  RpcSchema.Proofs.Manifest.Constants
  ───────────────────────────────────
  **WHICH CONSTANTS A DECLARED TYPE HAS.**

  How a type expression is written tells which declared type it stands for,
  if it stands for one: the ids of shapes, of basic types and of types of
  other packages are never those of a declared type.  So the constants of a
  type are the ones that are listed with an expression for it, in the order
  of the manifest.

  Main statements: `lookup_of_resolve` and `Route.constants_of_declared`.
-/
import RpcSchema.Proofs.Manifest.Route

namespace RpcSchema

/-! ## §1. Constants as they are listed. -/

/-- The declared type that an expression names in the package of short name `own`. -/
def TypeExpr.declared? (own : String) : TypeExpr → Option String
  | .unqualified name =>
    if BasicKind.ofName? name = none ∧ name ≠ "error" ∧ name ≠ "any" then some name else none
  | .qualified package name =>
    if package = own ∧ ¬ (package = "unsafe" ∧ name = "Pointer") then some name else none
  | _ => none

/-- The declared type of a constant. -/
def ConstDecl.declared? (own : String) (decl : ConstDecl) : Option String :=
  match TypeExpr.parse decl.type with
  | .ok e => e.declared? own
  | .error _ => none

namespace Manifest

/-- The short name of the package. -/
def shortName (m : Manifest) : String :=
  m.name.getD (lastSegment m.path)

/-- The constants of a declared type, in the order in which they are listed. -/
def constantsOf (m : Manifest) (name : String) : List ConstDecl :=
  m.constants.filter fun decl => decl.declared? m.shortName = some name

end Manifest

/-! ## §2. Ids of declared types. -/

namespace Draft

variable {d : Draft} {n : NativeId}

/-- What has another title is not declared under a name. -/
theorem Tidy.lookup_iff_of_find (hd : d.Tidy) {t : Title} (hn : d.find? t = some n)
    (name : String) : d.lookup? name = some n ↔ t = .declared name := by
  constructor
  · intro hname
    exact hd.title_unique hn (show d.find? (.declared name) = some n from hname)
  · rintro rfl
    exact hn

/-- No declared name is looked up as a shape. -/
theorem Tidy.lookup_ne_of_shape (hd : d.Tidy) (hn : (d.types.kind n).isNamed = false)
    (name : String) : d.lookup? name ≠ some n := by
  intro hname
  rw [hd.isNamed_of_find (t := .declared name) hname] at hn
  cases hn

/-- Of the predeclared types only `error` is not a shape. -/
theorem Tidy.lookup_ne_builtin (hd : d.Tidy) {i : Nat} (hi : i < 21) (hne : i ≠ 18)
    (name : String) : d.lookup? name ≠ some (.entry i) := by
  have hall : ∀ i < 21, i ≠ 18 → (Universe.predeclared.kind (.entry i)).isNamed = false := by
    decide
  refine hd.lookup_ne_of_shape ?_ name
  rw [hd.builtin i hi]
  exact hall i hi hne

theorem Tidy.lookup_ne_basic (hd : d.Tidy) (kind : BasicKind) (name : String) :
    d.lookup? name ≠ some (.basic kind) := by
  have hlt := kind.index_lt
  exact hd.lookup_ne_builtin (by omega) (by omega) name

theorem Tidy.lookup_ne_emptyInterface (hd : d.Tidy) (name : String) :
    d.lookup? name ≠ some .emptyInterface :=
  hd.lookup_ne_builtin (i := 19) (by decide) (by decide) name

end Draft

namespace Building

open Draft

variable {m : Manifest} {d₀ d : Draft}

/-! ## §3. Reading expressions. -/

/-- A shape that is read is not declared under a name. -/
theorem lookup_ne_of_runs_shape {k : NativeKind} {E E' : Draft} {n : NativeId}
    (hk : k.isNamed = false) (hrun : Runs (shape (·.intern k)) E n E') (hd : Completes E' d)
    (name : String) : d.lookup? name ≠ some n := by
  have heq := runs_modifyGet.1 hrun
  obtain rfl : (E.build (·.intern k)).1 = n := congrArg Prod.fst heq
  obtain rfl : (E.build (·.intern k)).2 = E' := congrArg Prod.snd heq
  exact hd.tidy.lookup_ne_of_shape (by rw [(hd.intern hk).2]; exact hk) name

/-- **Which declared type an expression names** can be told from how it is written. -/
theorem lookup_of_resolve {source : String} {x : TypeExpr} {E E' : Draft} {n : NativeId}
    (hrun : Runs (resolve source x) E n E') (hd : Completes E' d) (name : String) :
    d.lookup? name = some n ↔ x.declared? E.name = some name := by
  -- a name that was looked up is declared, and titles tell the types apart
  have hfound : ∀ {name' written : String}, Runs (declared name' written) E n E' →
      (d.lookup? name = some n ↔ some name' = some name) := by
    intro name' written hrun
    obtain ⟨hn, rfl⟩ := runs_declared.1 hrun
    rw [hd.tidy.lookup_iff_of_find (hd.grows.find (t := .declared name') hn), Title.declared.injEq,
      Option.some.injEq]
  -- only a name of this package is looked up, plain or qualified
  cases x with
  | unqualified name' =>
    unfold resolve at hrun
    simp only [TypeExpr.declared?]
    split at hrun
    · rename_i kind hkind
      obtain ⟨rfl, _⟩ := runs_pure.1 hrun
      simp [hkind, hd.tidy.lookup_ne_basic]
    · rename_i hkind
      split at hrun
      · rename_i herror
        obtain ⟨rfl, _⟩ := runs_pure.1 hrun
        rw [hd.tidy.lookup_iff_of_find (t := .error) rfl]
        simp [herror]
      · split at hrun
        · rename_i hany
          obtain ⟨rfl, _⟩ := runs_pure.1 hrun
          simp [hany, hd.tidy.lookup_ne_emptyInterface]
        · rename_i herror hany
          rw [hfound hrun, if_pos ⟨hkind, herror, hany⟩]
  | qualified package name' =>
    unfold resolve at hrun
    simp only [TypeExpr.declared?]
    split at hrun
    · rename_i hpointer
      obtain ⟨rfl, _⟩ := runs_pure.1 hrun
      simp [hpointer, hd.tidy.lookup_ne_basic]
    · rename_i hpointer
      obtain ⟨_, before, hget, hrest⟩ := runs_bind.1 hrun
      obtain ⟨rfl, rfl⟩ := runs_get.1 hget
      split at hrest
      · rename_i hown
        rw [hfound hrest, if_pos ⟨hown, hpointer⟩]
      · rename_i hother
        rw [if_neg fun h => hother h.1]
        -- a name of another package has a title of its own
        have hlook := (foreign_adds before package name').2.1
        rw [runs_modifyGet.1 hrest] at hlook
        rw [hd.tidy.lookup_iff_of_find (hd.grows.find (t := .foreign package name') hlook)]
        simp
  | pointer elem =>
    unfold resolve at hrun
    obtain ⟨_, _, _, hrun⟩ := runs_bind.1 hrun
    simp [TypeExpr.declared?, lookup_ne_of_runs_shape rfl hrun hd]
  | slice elem =>
    unfold resolve at hrun
    obtain ⟨_, _, _, hrun⟩ := runs_bind.1 hrun
    simp [TypeExpr.declared?, lookup_ne_of_runs_shape rfl hrun hd]
  | map key value =>
    unfold resolve at hrun
    obtain ⟨_, _, _, hrun⟩ := runs_bind.1 hrun
    obtain ⟨_, _, _, hrun⟩ := runs_bind.1 hrun
    simp [TypeExpr.declared?, lookup_ne_of_runs_shape rfl hrun hd]
  | emptyInterface =>
    obtain ⟨rfl, _⟩ := runs_pure.1 hrun
    simp [TypeExpr.declared?, hd.tidy.lookup_ne_emptyInterface]
  | variadic elem => exact absurd hrun not_runs_throw

/-! ## §4. Constants as they are read. -/

/-- To parse gives what the text spells and leaves the draft as it is. -/
theorem runs_parse {source : String} {x : TypeExpr} {E E' : Draft} :
    Runs (parse source) E x E' ↔ TypeExpr.parse source = .ok x ∧ E' = E := by
  unfold parse
  split
  · rename_i y hy
    rw [runs_pure, hy, Except.ok.injEq, eq_comm (a := x)]
  · rename_i fault offset hfault
    rw [hfault]
    exact ⟨fun hrun => absurd hrun not_runs_throw, fun h => nomatch h.1⟩

/-- **A constant has the type that its expression names.** -/
theorem Route.type_eq_iff (hd : Route m d₀ d) {name : String} {n id : NativeId}
    {decl : ConstDecl} {E₁ E₂ : Draft} (hn : d.lookup? name = some n)
    (hv : ConstantRead d₀ d decl id E₁ E₂) :
    id = n ↔ decl.declared? m.shortName = some name := by
  obtain ⟨x, E, hparse, hresolve⟩ := runs_bind.1 hv.read
  obtain ⟨hx, rfl⟩ := runs_parse.1 hparse
  -- the short name is given at the start and never changes
  have hname : E.name = m.shortName := hv.before.name.trans hd.name
  have hiff := lookup_of_resolve hresolve (hd.completes hv.after) name
  rw [hname, hn, Option.some.injEq, eq_comm] at hiff
  unfold ConstDecl.declared?
  rw [hx]
  exact hiff

/-- **The constants of a declared type** are those that are listed for it. -/
theorem Route.constants_of_declared (hd : Route m d₀ d) {name : String} {n : NativeId}
    (hn : d.lookup? name = some n) :
    (d.constants.filter (·.type = n)).map (fun c => (c.name, c.literal))
      = (m.constantsOf name).map fun decl => (decl.name, decl.literal) := by
  obtain ⟨ids, hids, hreads⟩ := hd.constants
  rw [hids]
  unfold Manifest.constantsOf
  -- the constants and their types are gone through side by side
  generalize m.constants = decls at hreads
  clear hids
  induction hreads with
  | nil => rfl
  | @cons decl id decls ids hread _ ih =>
    obtain ⟨E₁, E₂, hv⟩ := hread
    -- a constant is of the type exactly if its expression says so
    have hiff := hd.type_eq_iff hn hv
    rw [List.zipWith_cons_cons]
    by_cases hid : id = n
    · simp [constantOf, hid, hiff.1 hid, ih]
    · simp [constantOf, hid, mt hiff.2 hid, ih]

end Building

end RpcSchema
