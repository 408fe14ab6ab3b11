/-
  RpcSchema.Proofs.Native.Renaming
  ────────────────────────────────
  **TYPES UP TO THEIR IDS.**

  The data of a universe mentions native types by their ids.  It is
  determined by its skeleton, which is the data without the ids, and by
  the ids in the order in which they are mentioned.  Two pieces of data
  match when their skeletons are the same and the ids correspond one by
  one.

  Main statements: `Matches.unique` (what matches is determined by what the
  ids correspond to) and `matches_iff_eq_rename`.
-/
import Mathlib.Data.List.Forall2
import RpcSchema.Native.Kind

namespace RpcSchema

/-! ## §1. Data that mentions native types. -/

/-- Data that mentions native types. -/
class Mentions (α : Type) where
  rename : (NativeId → NativeId) → α → α
  /-- The native types in the order in which they are mentioned. -/
  mentions : α → List NativeId
  rename_rename : ∀ f g a, rename f (rename g a) = rename (f ∘ g) a
  mentions_rename : ∀ f a, mentions (rename f a) = (mentions a).map f
  ext : ∀ a b, rename (fun _ => .undefined) a = rename (fun _ => .undefined) b →
    mentions a = mentions b → a = b

export Mentions (rename mentions rename_rename mentions_rename)

variable {α β : Type} [Mentions α] [Mentions β]

/-- Data without the native types it mentions. -/
def skeleton (a : α) : α :=
  rename (fun _ => .undefined) a

theorem skeleton_rename (f : NativeId → NativeId) (a : α) :
    skeleton (rename f a) = skeleton a :=
  rename_rename _ _ _

/-- **Data is determined by its skeleton and by what it mentions.** -/
theorem eq_of_skeleton {a b : α} (h : skeleton a = skeleton b) (hm : mentions a = mentions b) :
    a = b :=
  Mentions.ext a b h hm

theorem length_mentions {a b : α} (h : skeleton a = skeleton b) :
    (mentions a).length = (mentions b).length := by
  have hlen := congrArg (fun c => (mentions c).length) h
  simpa only [skeleton, mentions_rename, List.length_map] using hlen

/-- Where one mention follows another they can be told apart. -/
theorem eq_of_skeletons {a a' : α} {b b' : β} (ha : skeleton a = skeleton a')
    (hb : skeleton b = skeleton b')
    (h : mentions a ++ mentions b = mentions a' ++ mentions b') : a = a' ∧ b = b' := by
  obtain ⟨hma, hmb⟩ := List.append_inj h (length_mentions ha)
  exact ⟨eq_of_skeleton ha hma, eq_of_skeleton hb hmb⟩

instance : Mentions NativeId where
  rename f n := f n
  mentions n := [n]
  rename_rename _ _ _ := rfl
  mentions_rename _ _ := rfl
  ext _ _ _ h := (List.cons.inj h).1

instance : Mentions (List α) where
  rename f l := l.map (rename f)
  mentions l := l.flatMap mentions
  rename_rename f g l := by
    rw [List.map_map]
    exact List.map_congr_left fun a _ => rename_rename f g a
  mentions_rename f l := by
    rw [List.flatMap_map, List.map_flatMap]
    exact List.flatMap_congr fun a _ => mentions_rename f a
  ext l l' h hm := by
    induction l generalizing l' with
    | nil => exact (List.map_eq_nil_iff.1 h.symm).symm
    | cons a l ih =>
      cases l' with
      | nil => cases h
      | cons b l' =>
        obtain ⟨hhead, htail⟩ := List.cons.inj h
        obtain ⟨hma, hml⟩ := List.append_inj hm (length_mentions hhead)
        rw [eq_of_skeleton hhead hma, ih l' htail hml]

/-! ## §2. Signatures and types. -/

instance : Mentions Var where
  rename f v := ⟨v.name, f v.type⟩
  mentions v := [v.type]
  rename_rename _ _ _ := rfl
  mentions_rename _ _ := rfl
  ext a b h hm := by
    cases a
    cases b
    cases hm
    cases h
    rfl

instance : Mentions Signature where
  rename f g := ⟨rename f g.params, rename f g.results, g.variadic⟩
  mentions g := mentions g.params ++ mentions g.results
  rename_rename f g a := by simp only [rename_rename]
  mentions_rename f a := by simp only [mentions_rename, List.map_append]
  ext a b h hm := by
    obtain ⟨hparams, hresults, hvariadic⟩ := Signature.mk.inj h
    obtain ⟨hp, hr⟩ := eq_of_skeletons hparams hresults hm
    cases a
    cases b
    cases hp
    cases hr
    cases hvariadic
    rfl

instance : Mentions Method where
  rename f m := ⟨m.name, rename f m.signature⟩
  mentions m := mentions m.signature
  rename_rename f g a := by simp only [rename_rename]
  mentions_rename f a := mentions_rename f a.signature
  ext a b h hm := by
    obtain ⟨hname, hsignature⟩ := Method.mk.inj h
    cases a
    cases b
    cases eq_of_skeleton hsignature hm
    cases hname
    rfl

instance : Mentions InterfaceShape where
  rename f s := ⟨rename f s.methods, rename f s.embedded⟩
  mentions s := mentions s.methods ++ mentions s.embedded
  rename_rename f g a := by simp only [rename_rename]
  mentions_rename f a := by simp only [mentions_rename, List.map_append]
  ext a b h hm := by
    obtain ⟨hmethods, hembedded⟩ := InterfaceShape.mk.inj h
    obtain ⟨hp, hr⟩ := eq_of_skeletons hmethods hembedded hm
    cases a
    cases b
    cases hp
    cases hr
    rfl

instance : Mentions Field where
  rename f a := ⟨a.name, f a.type, a.embedded⟩
  mentions a := [a.type]
  rename_rename _ _ _ := rfl
  mentions_rename _ _ := rfl
  ext a b h hm := by
    cases a
    cases b
    cases hm
    cases h
    rfl

instance : Mentions NamedType where
  rename f d := ⟨d.name, d.package, f d.underlying, rename f d.methods⟩
  mentions d := mentions d.underlying ++ mentions d.methods
  rename_rename f g a := by simp only [rename_rename, Function.comp_apply]
  mentions_rename f a := by
    simp only [mentions_rename, List.map_append]
    rfl
  ext a b h hm := by
    obtain ⟨hname, hpackage, hunderlying, hmethods⟩ := NamedType.mk.inj h
    obtain ⟨hu, hr⟩ := eq_of_skeletons hunderlying hmethods hm
    cases a
    cases b
    cases hu
    cases hr
    cases hname
    cases hpackage
    rfl

/-- The same type with other ids. -/
def NativeKind.renamed (f : NativeId → NativeId) : NativeKind → NativeKind
  | .basic kind => .basic kind
  | .named decl => .named (rename f decl)
  | .pointer elem => .pointer (f elem)
  | .slice elem => .slice (f elem)
  | .map key value => .map (f key) (f value)
  | .interface shape => .interface (rename f shape)
  | .struct fields => .struct (rename f fields)
  | .tuple elems => .tuple (rename f elems)

/-- The native types a type mentions. -/
def NativeKind.mentioned : NativeKind → List NativeId
  | .basic _ => []
  | .named decl => mentions decl
  | .pointer elem => [elem]
  | .slice elem => [elem]
  | .map key value => [key, value]
  | .interface shape => mentions shape
  | .struct fields => mentions fields
  | .tuple elems => mentions elems

instance : Mentions NativeKind where
  rename := NativeKind.renamed
  mentions := NativeKind.mentioned
  rename_rename f g k := by
    cases k <;> simp only [NativeKind.renamed, rename_rename, Function.comp_apply]
  mentions_rename f k := by
    cases k <;> simp only [NativeKind.renamed, NativeKind.mentioned, mentions_rename, List.map_cons,
      List.map_nil]
  ext a b h hm := by
    cases a with
    | basic kind =>
      cases b with
      | basic kind' => exact h
      | _ => cases h
    | named decl =>
      cases b with
      | named decl' => rw [eq_of_skeleton (NativeKind.named.inj h) hm]
      | _ => cases h
    | pointer elem =>
      cases b with
      | pointer elem' => rw [(List.cons.inj hm).1]
      | _ => cases h
    | slice elem =>
      cases b with
      | slice elem' => rw [(List.cons.inj hm).1]
      | _ => cases h
    | map key value =>
      cases b with
      | map key' value' =>
        obtain ⟨hkey, hvalue⟩ := List.cons.inj hm
        rw [hkey, (List.cons.inj hvalue).1]
      | _ => cases h
    | interface shape =>
      cases b with
      | interface shape' => rw [eq_of_skeleton (NativeKind.interface.inj h) hm]
      | _ => cases h
    | struct fields =>
      cases b with
      | struct fields' => rw [eq_of_skeleton (NativeKind.struct.inj h) hm]
      | _ => cases h
    | tuple elems =>
      cases b with
      | tuple elems' => rw [eq_of_skeleton (NativeKind.tuple.inj h) hm]
      | _ => cases h

section Fields

variable (f : NativeId → NativeId) (decl : NamedType)

@[simp] theorem rename_name : (rename f decl).name = decl.name := rfl

@[simp] theorem rename_package : (rename f decl).package = decl.package := rfl

@[simp] theorem rename_underlying : (rename f decl).underlying = f decl.underlying := rfl

@[simp] theorem rename_methods : (rename f decl).methods = decl.methods.map (rename f) := rfl

@[simp] theorem rename_basic (kind : BasicKind) :
    rename f (NativeKind.basic kind) = .basic kind := rfl

@[simp] theorem rename_named :
    rename f (NativeKind.named decl) = .named (rename f decl) := rfl

end Fields

/-! ## §3. Matching. -/

/-- The same data up to ids that correspond. -/
def Matches (R : NativeId → NativeId → Prop) (a b : α) : Prop :=
  skeleton a = skeleton b ∧ List.Forall₂ R (mentions a) (mentions b)

variable {R S : NativeId → NativeId → Prop}

theorem Matches.imp {a b : α} (hRS : ∀ n m, R n m → S n m) (h : Matches R a b) : Matches S a b :=
  ⟨h.1, h.2.imp hRS⟩

/-- **What matches is determined by what the ids correspond to.** -/
theorem Matches.unique {a b c : α} (hb : Matches R a b) (hc : Matches S a c)
    (h : ∀ n x y, R n x → S n y → x = y) : b = c := by
  refine eq_of_skeleton (hb.1.symm.trans hc.1) ?_
  obtain ⟨_, hRb⟩ := hb
  obtain ⟨_, hSc⟩ := hc
  generalize mentions a = l, mentions b = l₁, mentions c = l₂ at hRb hSc
  -- with the skeleton fixed, one mentioned id after another
  induction hRb generalizing l₂ with
  | nil =>
    cases hSc
    rfl
  | cons hx _ ih =>
    cases hSc with
    | cons hy hSc => rw [h _ _ _ hx hy, ih _ hSc]

/-- **Data match along a function if one is the other, renamed.** -/
theorem matches_iff_eq_rename {f : NativeId → NativeId} {a b : α} :
    Matches (fun n m => m = f n) a b ↔ b = rename f a := by
  -- a skeleton and the list of ids determine the data
  constructor
  · rintro ⟨hs, hm⟩
    refine eq_of_skeleton (hs.symm.trans (skeleton_rename f a).symm) ?_
    rw [mentions_rename]
    have hmap : List.Forall₂ (fun m n => m = n) (mentions b) ((mentions a).map f) :=
      List.forall₂_map_right_iff.2 hm.flip
    rwa [List.forall₂_eq_eq_eq] at hmap
  · rintro rfl
    refine ⟨(skeleton_rename f a).symm, ?_⟩
    rw [mentions_rename, List.forall₂_map_right_iff]
    exact List.forall₂_same.2 fun _ _ => rfl

/-! Data matches when its parts do. -/

theorem matches_cons {a b : α} {l l' : List α} (h : Matches R a b) (hl : Matches R l l') :
    Matches R (a :: l) (b :: l') :=
  ⟨congrArg₂ List.cons h.1 hl.1, List.rel_append h.2 hl.2⟩

theorem matches_of_forall₂ {l l' : List α} (h : List.Forall₂ (Matches R) l l') :
    Matches R l l' := by
  induction h with
  | nil => exact ⟨rfl, .nil⟩
  | cons hx _ ih => exact matches_cons hx ih

theorem matches_id {n m : NativeId} (h : R n m) : Matches R n m :=
  ⟨rfl, .cons h .nil⟩

theorem matches_var {n m : NativeId} (name : Option String) (h : R n m) :
    Matches R (⟨name, n⟩ : Var) ⟨name, m⟩ :=
  ⟨rfl, .cons h .nil⟩

theorem matches_field {n m : NativeId} (name : String) (embedded : Bool) (h : R n m) :
    Matches R (⟨name, n, embedded⟩ : Field) ⟨name, m, embedded⟩ :=
  ⟨rfl, .cons h .nil⟩

/-- Methods match if their signatures do. -/
theorem matches_method {params params' results results' : List Var} (name : String)
    (variadic : Bool) (hp : Matches R params params') (hr : Matches R results results') :
    Matches R (⟨name, params, results, variadic⟩ : Method) ⟨name, params', results', variadic⟩ :=
  ⟨congrArg₂ (fun ps rs => (⟨name, ps, rs, variadic⟩ : Method)) hp.1 hr.1,
    List.rel_append hp.2 hr.2⟩

theorem matches_pointer {n m : NativeId} (h : R n m) :
    Matches R (NativeKind.pointer n) (.pointer m) :=
  ⟨rfl, .cons h .nil⟩

theorem matches_slice {n m : NativeId} (h : R n m) :
    Matches R (NativeKind.slice n) (.slice m) :=
  ⟨rfl, .cons h .nil⟩

theorem matches_map {n n' m m' : NativeId} (h : R n m) (h' : R n' m') :
    Matches R (NativeKind.map n n') (.map m m') :=
  ⟨rfl, .cons h (.cons h' .nil)⟩

theorem matches_struct {fields fields' : List Field} (h : Matches R fields fields') :
    Matches R (NativeKind.struct fields) (.struct fields') :=
  ⟨congrArg NativeKind.struct h.1, h.2⟩

theorem matches_interface {methods methods' : List Method} {embedded embedded' : List NativeId}
    (hm : Matches R methods methods') (he : Matches R embedded embedded') :
    Matches R (NativeKind.interface ⟨methods, embedded⟩) (.interface ⟨methods', embedded'⟩) :=
  ⟨congrArg₂ (fun ms es => NativeKind.interface ⟨ms, es⟩) hm.1 he.1, List.rel_append hm.2 he.2⟩

theorem matches_declaration {n m : NativeId} {methods methods' : List Method} (name : String)
    (package : Option String) (h : R n m) (hm : Matches R methods methods') :
    Matches R (⟨name, package, n, methods⟩ : NamedType) ⟨name, package, m, methods'⟩ :=
  ⟨congrArg (fun ms => (⟨name, package, .undefined, ms⟩ : NamedType)) hm.1, .cons h hm.2⟩

theorem matches_named {k k' : NamedType} (h : Matches R k k') :
    Matches R (NativeKind.named k) (.named k') :=
  ⟨congrArg NativeKind.named h.1, h.2⟩

/-- Declarations go on to match when methods that match are added. -/
theorem matches_addMethod {k k' : NamedType} {m m' : Method} (h : Matches R k k')
    (hm : Matches R m m') :
    Matches R { k with methods := k.methods ++ [m] } { k' with methods := k'.methods ++ [m'] } := by
  obtain ⟨hskeleton, hmentions⟩ := h
  obtain ⟨hname, hpackage, hunderlying, hmethods⟩ := NamedType.mk.inj hskeleton
  -- the new method is mentioned last
  have hlast : ∀ k : NamedType, ∀ m : Method,
      mentions { k with methods := k.methods ++ [m] } = mentions k ++ mentions m := by
    intro k m
    show [k.underlying] ++ (k.methods ++ [m]).flatMap mentions = _
    rw [List.flatMap_append, ← List.append_assoc, List.flatMap_singleton]
    rfl
  refine ⟨?_, ?_⟩
  · show NamedType.mk k.name k.package .undefined ((k.methods ++ [m]).map skeleton)
      = ⟨k'.name, k'.package, .undefined, (k'.methods ++ [m']).map skeleton⟩
    rw [hname, hpackage, List.map_append, List.map_append,
      show k.methods.map skeleton = k'.methods.map skeleton from hmethods, List.map_singleton,
      List.map_singleton, show skeleton m = skeleton m' from hm.1]
  · rw [hlast, hlast]
    exact List.rel_append hmentions hm.2

end RpcSchema
