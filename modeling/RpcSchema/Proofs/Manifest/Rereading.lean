/-
  RpcSchema.Proofs.Manifest.Rereading
  ───────────────────────────────────
  **THE SPELLING OF A TYPE IS READ BACK TO THE TYPE.**

  A type that was read from an expression has an expression of its own: a
  basic kind, the builtin error and the empty interface are written alone,
  a declared type behind the short name of the package, a type of another
  package behind the name of that, and a shape around the expressions of
  its parts.  This expression is what the type is spelled as, what the
  spelling is parsed to, and it is resolved to the type without any change
  to the draft.

  It holds at every later point of the walk, because names keep what they
  stand for and shapes stand there once.

  Main statement: `spelling_rereads`.
-/
import RpcSchema.Proofs.Conversion.Steps
import RpcSchema.Proofs.Manifest.Constants
import RpcSchema.Proofs.Manifest.Points
import RpcSchema.Proofs.TypeExpr.Grammar

namespace RpcSchema

open TypeExpr (IsIdentifier IsOpening Spells SpellsWhole)

/-! ## §1. Types that can be written. -/

namespace Draft

variable {d d' : Draft} {id : NativeId} {e : TypeExpr}

/-- The type `id` is written `e`. -/
inductive Writable (d : Draft) : NativeId → TypeExpr → Prop
  | basic {kind : BasicKind} (hkind : kind ≠ .unsafePointer) :
      Writable d (.basic kind) (.unqualified kind.name)
  | unsafePointer : Writable d (.basic .unsafePointer) (.qualified "unsafe" "Pointer")
  | error : Writable d .error (.unqualified "error")
  | emptyInterface : Writable d .emptyInterface .emptyInterface
  | declared {name : String} {id : NativeId} {decl : NamedType} (hname : IsIdentifier name)
      (hid : d.lookup? name = some id) (hkind : d.types.kind id = .named decl)
      (hdecl : decl.name = name) (hpackage : decl.package = some d.path) :
      Writable d id (.qualified d.name name)
  | foreign {package name : String} {id : NativeId} {decl : NamedType} (hopen : IsOpening package)
      (hname : IsIdentifier name) (hlocal : package ≠ d.name)
      (hpointer : ¬ (package = "unsafe" ∧ name = "Pointer"))
      (hid : d.foreigns.lookup (package, name) = some id)
      (hkind : d.types.kind id = .named decl) (hdecl : decl.name = name)
      (hpackage : decl.package = some package) :
      Writable d id (.qualified package name)
  | pointer {elem id : NativeId} {e : TypeExpr} (helem : Writable d elem e)
      (hkind : d.types.kind id = .pointer elem) : Writable d id (.pointer e)
  | slice {elem id : NativeId} {e : TypeExpr} (helem : Writable d elem e)
      (hkind : d.types.kind id = .slice elem) : Writable d id (.slice e)
  | map {key value id : NativeId} {k v : TypeExpr} (hkey : Writable d key k)
      (hvalue : Writable d value v) (hkind : d.types.kind id = .map key value) :
      Writable d id (.map k v)

/-- A shape that is there stays. -/
theorem Extends.kind_eq (h : d.Extends d') {k : NativeKind} (hkind : d.types.kind id = k)
    (hname : k.isNamed = false) (hne : k ≠ .tuple []) : d'.types.kind id = k := by
  have hhas : d.types.Has id := Universe.has_of_kind_ne (by rw [hkind]; exact hne)
  rw [h.shapes id hhas (by rw [hkind]; exact hname), hkind]

/-- **What can be written is written alike at every later point.** -/
theorem Writable.extend (h : d.Writable id e) (hd : d.Extends d') : d'.Writable id e := by
  -- on the expression; titles and shapes are as they were
  induction h with
  | basic hkind => exact .basic hkind
  | unsafePointer => exact .unsafePointer
  | error => exact .error
  | emptyInterface => exact .emptyInterface
  | declared hname hid hkind hdecl hpackage =>
    obtain ⟨decl', hkind', hname', hpackage'⟩ := hd.titles _ _ hkind
    rw [← hd.name]
    refine .declared hname (hd.declared _ _ hid) hkind' (hname'.trans hdecl) ?_
    rw [hpackage', hpackage, hd.path]
  | foreign hopen hname hlocal hpointer hid hkind hdecl hpackage =>
    obtain ⟨decl', hkind', hname', hpackage'⟩ := hd.titles _ _ hkind
    exact .foreign hopen hname (by rw [hd.name]; exact hlocal) hpointer (hd.foreigns _ _ hid) hkind'
      (hname'.trans hdecl) (hpackage'.trans hpackage)
  | pointer _ hkind ih => exact .pointer ih (hd.kind_eq hkind rfl (by simp))
  | slice _ hkind ih => exact .slice ih (hd.kind_eq hkind rfl (by simp))
  | map _ _ hkind ihkey ihvalue =>
    exact .map ihkey ihvalue (hd.kind_eq hkind rfl (by simp))

/-! ## §2. What is read can be written. -/

/-- A declared type has the name it is declared under, and the path of the package. -/
theorem Tidy.exists_declared (h : d.Tidy) {name : String} (hid : d.lookup? name = some id) :
    ∃ decl, d.types.kind id = .named decl ∧ decl.name = name ∧ decl.package = some d.path := by
  obtain ⟨decl, hkind⟩ := Universe.exists_named (h.isNamed_of_find (t := .declared name) hid)
  refine ⟨decl, hkind, ?_⟩
  -- of the three origins only a declaration has the title
  cases h.origin id decl hkind with
  | builtin hn =>
    cases h.title_unique (t := .error) (show d.find? .error = some id by rw [hn]; rfl)
      (show d.find? (.declared name) = some id from hid)
  | declared hn hpackage =>
    have hfind : d.find? (.declared decl.name) = some id := Sequence.lookup_of_mem hn h.names
    have htitle := h.title_unique hfind (show d.find? (.declared name) = some id from hid)
    exact ⟨Title.declared.inj htitle, hpackage⟩
  | @foreign package hn _ =>
    have hfind : d.find? (.foreign package decl.name) = some id := Sequence.lookup_of_mem hn h.keys
    cases h.title_unique hfind (show d.find? (.declared name) = some id from hid)

/-- A type of another package has the names it was met under. -/
theorem Tidy.exists_foreign (h : d.Tidy) {package name : String}
    (hid : d.foreigns.lookup (package, name) = some id) :
    ∃ decl, d.types.kind id = .named decl ∧ decl.name = name ∧ decl.package = some package := by
  have hfind : d.find? (.foreign package name) = some id := hid
  obtain ⟨decl, hkind⟩ := Universe.exists_named (h.isNamed_of_find hfind)
  refine ⟨decl, hkind, ?_⟩
  -- of the three origins only another package has the title
  cases h.origin id decl hkind with
  | builtin hn =>
    cases h.title_unique (t := .error) (show d.find? .error = some id by rw [hn]; rfl) hfind
  | declared hn _ =>
    have hother : d.find? (.declared decl.name) = some id := Sequence.lookup_of_mem hn h.names
    cases h.title_unique hother hfind
  | @foreign package' hn hpackage =>
    have hother : d.find? (.foreign package' decl.name) = some id := Sequence.lookup_of_mem hn h.keys
    obtain ⟨rfl, hname⟩ := Title.foreign.inj (h.title_unique hother hfind)
    exact ⟨hname, hpackage⟩

end Draft

namespace Building

open Draft

variable {d d' : Draft} {id : NativeId} {source name package : String} {e : TypeExpr}

/-- Interning a shape of parts that can be written. -/
theorem runs_shape {k : NativeKind} (h : Runs (shape (·.intern k)) d id d') :
    d.Extends d' ∧ d'.types.kind id = k := by
  have heq := runs_modifyGet.1 h
  obtain rfl : (d.build (·.intern k)).1 = id := congrArg Prod.fst heq
  obtain rfl : (d.build (·.intern k)).2 = d' := congrArg Prod.snd heq
  exact ⟨Adds.extends (adds_intern d k), Universe.kind_intern d.types k⟩

/-- What a name is resolved to can be written. -/
theorem writable_of_unqualified (hd : d.Tidy) (hname : IsIdentifier name)
    (h : Runs (resolve source (.unqualified name)) d id d') : ∃ e, d'.Writable id e := by
  unfold resolve at h
  split at h
  · rename_i kind _
    obtain ⟨rfl, rfl⟩ := runs_pure.1 h
    -- of the basic kinds one is written with a qualified name
    by_cases hkind : kind = .unsafePointer
    · rw [hkind]
      exact ⟨_, .unsafePointer⟩
    · exact ⟨_, .basic hkind⟩
  · split at h
    · obtain ⟨rfl, rfl⟩ := runs_pure.1 h
      exact ⟨_, .error⟩
    · split at h
      · obtain ⟨rfl, rfl⟩ := runs_pure.1 h
        exact ⟨_, .emptyInterface⟩
      · obtain ⟨hid, rfl⟩ := runs_declared.1 h
        obtain ⟨decl, hkind, hdecl, hpackage⟩ := hd.exists_declared hid
        exact ⟨_, .declared hname hid hkind hdecl hpackage⟩

/-- What a name of another package is resolved to can be written. -/
theorem writable_of_qualified (hd : d.Tidy) (hopen : IsOpening package) (hname : IsIdentifier name)
    (h : Runs (resolve source (.qualified package name)) d id d') : ∃ e, d'.Writable id e := by
  unfold resolve at h
  split at h
  · obtain ⟨rfl, rfl⟩ := runs_pure.1 h
    exact ⟨_, .unsafePointer⟩
  · rename_i hpointer
    obtain ⟨_, _, hget, hrest⟩ := runs_bind.1 h
    obtain ⟨hread, hsame⟩ := runs_get.1 hget
    rw [hread, hsame] at hrest
    -- the name of the package may be written in front of its own names
    by_cases hlocal : package = d.name
    · rw [if_pos hlocal] at hrest
      obtain ⟨hid, rfl⟩ := runs_declared.1 hrest
      obtain ⟨decl, hkind, hdecl, hpackage⟩ := hd.exists_declared hid
      exact ⟨_, .declared hname hid hkind hdecl hpackage⟩
    · rw [if_neg hlocal] at hrest
      have heq := runs_modifyGet.1 hrest
      have hid : (d.foreign package name).1 = id := congrArg Prod.fst heq
      have hd' : (d.foreign package name).2 = d' := congrArg Prod.snd heq
      -- the name is found from here on, whether it was there or is new
      obtain ⟨hadds, hfound, _⟩ := foreign_adds d package name
      have htidy := hd.foreign package name
      rw [hid, hd'] at hfound
      rw [hd'] at hadds htidy
      obtain ⟨decl, hkind, hdecl, hpackage⟩ := htidy.exists_foreign hfound
      refine ⟨_, .foreign hopen hname ?_ hpointer hfound hkind hdecl hpackage⟩
      rw [hadds.name]
      exact hlocal

/-- **What is read can be written.**  By induction on the expression. -/
theorem writable_of_runs {text : List Char} (htext : Spells e text) (hd : d.Formed) (ht : d.Tidy)
    (h : Runs (resolve source e) d id d') : ∃ e', d'.Writable id e' := by
  -- on the text; what was written before an addition still is
  induction htext generalizing d d' id with
  | unqualified _ hname => exact writable_of_unqualified ht hname.toIsIdentifier h
  | qualified _ hopen _ hname => exact writable_of_qualified ht hopen hname h
  | pointer _ _ ih =>
    obtain ⟨elem, d₁, helem, hshape⟩ := runs_bind.1 h
    obtain ⟨e', he'⟩ := ih hd ht helem
    obtain ⟨hext, hkind⟩ := runs_shape hshape
    exact ⟨_, .pointer (he'.extend hext) hkind⟩
  | slice _ _ _ ih =>
    obtain ⟨elem, d₁, helem, hshape⟩ := runs_bind.1 h
    obtain ⟨e', he'⟩ := ih hd ht helem
    obtain ⟨hext, hkind⟩ := runs_shape hshape
    exact ⟨_, .slice (he'.extend hext) hkind⟩
  | map _ _ _ _ _ ihkey ihvalue =>
    obtain ⟨key, d₁, hkey, h⟩ := runs_bind.1 h
    obtain ⟨value, d₂, hvalue, hshape⟩ := runs_bind.1 h
    obtain ⟨k', hk'⟩ := ihkey hd ht hkey
    obtain ⟨hd₁, ht₁⟩ := (leads_resolve hd hkey).formed_tidy hd ht
    obtain ⟨v', hv'⟩ := ihvalue hd₁ ht₁ hvalue
    obtain ⟨hext, hkind⟩ := runs_shape hshape
    have hlater := (leads_resolve hd₁ hvalue).extends.trans hext
    exact ⟨_, .map (hk'.extend hlater) (hv'.extend hext) hkind⟩
  | emptyInterface =>
    obtain ⟨rfl, rfl⟩ := runs_pure.1 h
    exact ⟨_, .emptyInterface⟩

/-! ## §3. What can be written is resolved. -/

/-- A shape that is there is interned where it stands. -/
theorem runs_shape_of_kind {k : NativeKind} (hd : d.Tidy) (hkind : d.types.kind id = k)
    (hname : k.isNamed = false) (hne : k ≠ .tuple []) : Runs (shape (·.intern k)) d id d := by
  have hhas : d.types.Has id := Universe.has_of_kind_ne (by rw [hkind]; exact hne)
  apply runs_modifyGet.2
  rcases d.types.intern_cases k with ⟨m, hm, hk, heq⟩ | ⟨hnone, _⟩
  · obtain rfl : m = id := hd.single m id hm (by rw [hk]; exact hname) (by rw [hk, hkind])
    show ((d.types.intern k).1, { d with types := (d.types.intern k).2 }) = (m, d)
    rw [heq]
  · exact absurd hkind (hnone id hhas)

/-- **What a type is written as is resolved to it**, and the draft stays as it is. -/
theorem runs_of_writable (h : d.Writable id e) (hd : d.Tidy) (hlast : d.name ≠ "unsafe") :
    Runs (resolve source e) d id d := by
  -- on the expression; nothing has to be added, since all of it is there
  induction h with
  | @basic kind hkind =>
    unfold resolve
    rw [BasicKind.ofName?_name]
    exact runs_pure.2 ⟨rfl, rfl⟩
  | unsafePointer => exact runs_pure.2 ⟨rfl, rfl⟩
  | error => exact runs_pure.2 ⟨rfl, rfl⟩
  | emptyInterface => exact runs_pure.2 ⟨rfl, rfl⟩
  | declared _ hid _ _ _ =>
    unfold resolve
    -- its own package is not the one of the unsafe pointer
    rw [if_neg (fun hboth => hlast hboth.1)]
    apply runs_bind.2
    refine ⟨d, d, runs_get.2 ⟨rfl, rfl⟩, ?_⟩
    rw [if_pos rfl]
    exact runs_declared.2 ⟨hid, rfl⟩
  | @foreign package name id _ _ _ hlocal hpointer hid _ _ _ =>
    unfold resolve
    rw [if_neg hpointer]
    apply runs_bind.2
    refine ⟨d, d, runs_get.2 ⟨rfl, rfl⟩, ?_⟩
    rw [if_neg hlocal]
    apply runs_modifyGet.2
    unfold Draft.foreign
    rw [hid]
  | pointer _ hkind ih =>
    exact runs_bind.2 ⟨_, d, ih, runs_shape_of_kind hd hkind rfl (by simp)⟩
  | slice _ hkind ih =>
    exact runs_bind.2 ⟨_, d, ih, runs_shape_of_kind hd hkind rfl (by simp)⟩
  | map _ _ hkind ihkey ihvalue =>
    refine runs_bind.2 ⟨_, d, ihkey, runs_bind.2 ⟨_, d, ihvalue, ?_⟩⟩
    exact runs_shape_of_kind hd hkind rfl (by simp)

end Building

/-! ## §4. What can be written is spelled so. -/

/-- A name without slashes is its own last segment. -/
theorem lastSegment_of_isIdentifier {name : String} (h : IsIdentifier name) :
    lastSegment name = name := by
  -- a slash is no character of a word
  have hall : ∀ c ∈ name.toList.reverse, decide (c ≠ '/') = true := by
    intro c hc
    have hword := h.wordChars c (List.mem_reverse.1 hc)
    apply decide_eq_true
    intro hslash
    rw [hslash] at hword
    exact absurd hword (by decide)
  unfold lastSegment
  rw [List.takeWhile_eq_self_iff.2 hall, List.reverse_reverse, String.ofList_toList]

theorem isOpening_basic {kind : BasicKind} (h : kind ≠ .unsafePointer) : IsOpening kind.name := by
  apply TypeExpr.isOpening_of_check
  cases kind <;> first | decide | exact absurd rfl h

namespace Draft

variable {d : Draft} {id : NativeId} {e : TypeExpr}

/-- The spelling of a qualified name. -/
theorem spells_qualified {package name : String} (hopen : IsOpening package)
    (hname : IsIdentifier name) :
    Spells (.qualified package name) (package ++ "." ++ name).toList := by
  have htext := Spells.qualified TypeExpr.blanks_nil hopen TypeExpr.blanks_nil hname
  rw [List.nil_append, List.nil_append] at htext
  rw [String.toList_append, String.toList_append, List.append_assoc]
  exact htext

/-- **What a type is written as is how it is spelled.** -/
theorem Writable.spells (h : d.Writable id e) (hd : d.Formed) (ht : d.Tidy) (hopen : IsOpening d.name)
    (hsegment : lastSegment d.path = d.name) : Spells e (d.types.spell id).toList := by
  have hspell : ∀ {id : NativeId} {k : NativeKind}, d.types.kind id = k → k ≠ .tuple [] →
      d.types.spell id = k.spelledWith d.types.spell :=
    hd.types.isLayered.spell_of_kind
  -- on the expression, along the spelling
  induction h with
  | @basic kind hkind =>
    have hentry : d.types.kind (.basic kind) = .basic kind := by
      have hlt := kind.index_lt
      rw [show NativeId.basic kind = .entry kind.index from rfl, ht.builtin _ (by omega)]
      exact Universe.kind_predeclared_basic kind
    rw [hspell hentry (by simp)]
    exact Spells.unqualified TypeExpr.blanks_nil (isOpening_basic hkind)
  | unsafePointer =>
    have hentry : d.types.kind (.basic .unsafePointer) = .basic .unsafePointer :=
      ht.builtin 17 (by decide)
    rw [hspell hentry (by simp)]
    exact spells_qualified (TypeExpr.isOpening_of_check (by decide)) (TypeExpr.isIdentifier_of_check (by decide))
  | error =>
    have hentry : d.types.kind .error = .named ⟨"error", none, Universe.errorShape, []⟩ :=
      ht.builtin 18 (by decide)
    rw [hspell hentry (by simp)]
    exact Spells.unqualified TypeExpr.blanks_nil (TypeExpr.isOpening_of_check (by decide))
  | emptyInterface =>
    have hentry : d.types.kind .emptyInterface = .interface .empty := ht.builtin 19 (by decide)
    rw [hspell hentry (by simp), show NativeKind.spelledWith _ (.interface .empty)
        = "interface\x7b\x7d" from rfl]
    exact Spells.emptyInterface TypeExpr.blanks_nil TypeExpr.blanks_nil TypeExpr.blanks_nil
  -- the last segment of the path is the name that the text is read with
  | declared hname _ hkind hdecl hpackage =>
    simp only [hspell hkind (by simp), NativeKind.spelledWith, hpackage, hsegment, hdecl]
    exact spells_qualified hopen hname
  | foreign hopen' hname _ _ _ hkind hdecl hpackage =>
    simp only [hspell hkind (by simp), NativeKind.spelledWith, hpackage,
      lastSegment_of_isIdentifier hopen'.toIsIdentifier, hdecl]
    exact spells_qualified hopen' hname
  | pointer _ hkind ih =>
    rw [hspell hkind (by simp), NativeKind.spelledWith, String.toList_append]
    exact Spells.pointer TypeExpr.blanks_nil ih
  | slice _ hkind ih =>
    rw [hspell hkind (by simp), NativeKind.spelledWith, String.toList_append]
    exact Spells.slice TypeExpr.blanks_nil TypeExpr.blanks_nil ih
  | map _ _ hkind ihkey ihvalue =>
    have hblank := TypeExpr.blanks_nil
    have htext := Spells.map hblank hblank ihkey hblank ihvalue
    rw [hspell hkind (by simp), NativeKind.spelledWith, String.toList_append, String.toList_append,
      String.toList_append, List.append_assoc, List.append_assoc]
    exact htext

end Draft

/-! ## §5. Rereading. -/

namespace Manifest

open Building

variable {m : Manifest} {d d' : Draft} {id : NativeId} {e : TypeExpr}

/-- A draft that the steps of a walk over the manifest lead to. -/
def Point (m : Manifest) (d : Draft) : Prop :=
  (Draft.start m.path m.name).Leads d

/-- At some point before, a text was parsed and resolved to the type `id`, or the element of a
variadic text was. -/
def Writes (m : Manifest) (d : Draft) (id : NativeId) : Prop :=
  ∃ d₀ source e d₁, m.Point d₀ ∧
    (TypeExpr.parse source = .ok e ∨ TypeExpr.parse source = .ok (.variadic e)) ∧
    Runs (resolve source e) d₀ id d₁ ∧ d₁.Leads d

theorem Point.formed_tidy (h : m.Point d) : d.Formed ∧ d.Tidy :=
  Draft.Leads.formed_tidy h (Draft.start_formed _ _) (Draft.start_tidy _ _)

/-- What was parsed and resolved has a text of its own. -/
theorem exists_spells {source : String}
    (hparse : TypeExpr.parse source = .ok e ∨ TypeExpr.parse source = .ok (.variadic e))
    (hrun : Runs (resolve source e) d id d') : ∃ text, Spells e text := by
  -- a resolved expression is not variadic, but the element of one may be
  rcases hparse with hparse | hparse
  · have hwhole := TypeExpr.parse_eq_ok_iff.1 hparse
    generalize source.toList = cs at hwhole
    obtain ⟨htext, _⟩ := hwhole
    cases htext with
    | plain htext => exact ⟨_, htext⟩
    | variadic => exact absurd hrun not_runs_throw
  · have hwhole := TypeExpr.parse_eq_ok_iff.1 hparse
    generalize source.toList = cs at hwhole
    obtain ⟨htext, _⟩ := hwhole
    cases htext with
    | plain htext => cases htext
    | variadic _ _ helem => exact ⟨_, helem⟩

/-- What was read before can be written. -/
theorem Writes.writable (h : m.Writes d id) : m.Point d ∧ ∃ e, d.Writable id e := by
  obtain ⟨d₀, source, e, d₁, hpoint, hparse, hrun, hlater⟩ := h
  obtain ⟨hformed, htidy⟩ := hpoint.formed_tidy
  have hleads : d₀.Leads d₁ := leads_resolve hformed hrun
  refine ⟨(Draft.Leads.trans hpoint hleads).trans hlater, ?_⟩
  obtain ⟨text, htext⟩ := exists_spells hparse hrun
  obtain ⟨e', he'⟩ := writable_of_runs htext hformed htidy hrun
  exact ⟨e', he'.extend hlater.extends⟩

/-- A type that can be written is spelled as it is written, and its spelling is read back. -/
theorem reread (hopen : IsOpening (lastSegment m.path)) (hlast : lastSegment m.path ≠ "unsafe")
    (hname : m.shortName = lastSegment m.path) (hpoint : m.Point d) (h : d.Writable id e) :
    TypeExpr.parse (d.types.spell id) = .ok e ∧ Runs (resolve (d.types.spell id) e) d id d := by
  obtain ⟨hformed, htidy⟩ := hpoint.formed_tidy
  have hext := Draft.Leads.extends hpoint
  -- the names of the draft are those of the manifest
  have hshort : d.name = lastSegment m.path := hext.name.trans hname
  have hpath : lastSegment d.path = d.name := by
    rw [hshort, hext.path]
    rfl
  have htext : Spells e (d.types.spell id).toList :=
    h.spells hformed htidy (by rw [hshort]; exact hopen) hpath
  constructor
  · apply TypeExpr.parse_eq_ok_iff.2
    have hwhole := SpellsWhole.intro (.plain htext) TypeExpr.blanks_nil
    rwa [List.append_nil] at hwhole
  · exact runs_of_writable h htidy (by rw [hshort]; exact hlast)

/-- **THE SPELLING OF A TYPE IS READ BACK TO THE TYPE.**

Let the path of a manifest end in a name that may open a type expression and is not `unsafe`, and
let the package go by that name.  The walk over the manifest goes from point to point, reading a
type expression does, and at every point each type that was read before has a spelling that
parses, and that is resolved to this very type while the draft stays as it is.  So no two such
types are spelled alike. -/
theorem spelling_rereads (m : Manifest) (hopen : IsOpening (lastSegment m.path))
    (hlast : lastSegment m.path ≠ "unsafe") (hname : m.shortName = lastSegment m.path) :
    (∀ d, Runs (manifest m) (Draft.start m.path m.name) ⟨⟩ d → m.Point d) ∧
    (∀ d source e id d', m.Point d → Runs (resolve source e) d id d' → d.Leads d') ∧
    ∀ d,
      (∀ id, m.Writes d id → ∃ e, TypeExpr.parse (d.types.spell id) = .ok e ∧
        Runs (resolve (d.types.spell id) e) d id d) ∧
      ∀ id id', m.Writes d id → m.Writes d id' → d.types.spell id = d.types.spell id' →
        id = id' := by
  refine ⟨fun d hrun => leads_manifest hrun, ?_, fun d => ⟨?_, ?_⟩⟩
  · intro d source e id d' hpoint hrun
    exact leads_resolve hpoint.formed_tidy.1 hrun
  · intro id hid
    obtain ⟨hpoint, e, he⟩ := hid.writable
    exact ⟨e, reread hopen hlast hname hpoint he⟩
  · intro id id' hid hid' hspell
    obtain ⟨hpoint, e, he⟩ := hid.writable
    obtain ⟨_, e', he'⟩ := hid'.writable
    obtain ⟨hparse, hrun⟩ := reread hopen hlast hname hpoint he
    obtain ⟨hparse', hrun'⟩ := reread hopen hlast hname hpoint he'
    -- one spelling is parsed to one expression, and that is resolved to one type
    rw [hspell, hparse'] at hparse
    obtain rfl := Except.ok.inj hparse
    rw [hspell] at hrun
    exact (runs_unique hrun hrun').1.symm

/-! ## §6. An atlas. -/

/-- A struct named like a basic kind. -/
def atlasManifest : Manifest where
  path := "example.com/atlas"
  name := none
  types := [⟨"string", .struct [⟨some "Sheets", "map[geo.Place] []*atlas.string"⟩], []⟩]
  constants := []

/-- The draft after the struct is declared. -/
def atlasDraft : Draft :=
  ((Draft.start "example.com/atlas" none).declare "string").2

/-- The type of the field is spelled without the blank, and read back. -/
theorem spelling_rereads_atlas :
    ∃ d id, atlasManifest.Writes d id ∧ d.types.spell id = "map[geo.Place][]*atlas.string" ∧
      ∃ e, TypeExpr.parse "map[geo.Place][]*atlas.string" = .ok e ∧
        Runs (resolve "map[geo.Place][]*atlas.string" e) d id d := by
  have hparse : (TypeExpr.parse "map[geo.Place] []*atlas.string").toOption
      = some (.map (.qualified "geo" "Place") (.slice (.pointer (.qualified "atlas" "string")))) := by
    decide +kernel
  -- the expression is resolved on a draft where its names are declared
  have hread : (((resolve "map[geo.Place] []*atlas.string"
        (.map (.qualified "geo" "Place") (.slice (.pointer (.qualified "atlas" "string"))))).run
          atlasDraft).toOption.any fun r =>
      decide (r.2.types.spell r.1 = "map[geo.Place][]*atlas.string")) = true := by
    decide +kernel
  obtain ⟨⟨id, d⟩, hrun, hspell⟩ := (Option.any_eq_true _ _).1 hread
  replace hspell : d.types.spell id = "map[geo.Place][]*atlas.string" := of_decide_eq_true hspell
  have hpoint : atlasManifest.Point atlasDraft :=
    (Draft.Leads.refl _).step (.declare _ "string")
  have hwrites : atlasManifest.Writes d id :=
    ⟨atlasDraft, _, _, d, hpoint, Or.inl (eq_ok_of_toOption hparse), eq_ok_of_toOption hrun,
      Draft.Leads.refl d⟩
  have hopen : IsOpening (lastSegment atlasManifest.path) :=
    TypeExpr.isOpening_of_check (by decide +kernel)
  have hreread := ((spelling_rereads atlasManifest hopen (by decide +kernel) rfl).2.2 d).1 id hwrites
  rw [hspell] at hreread
  exact ⟨d, id, hwrites, hspell, hreread⟩

end Manifest

end RpcSchema
