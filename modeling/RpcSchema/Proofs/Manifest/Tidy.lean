/-
  RpcSchema.Proofs.Manifest.Tidy
  ──────────────────────────────
  **EVERY TYPE OF A DRAFT STANDS THERE ONCE, AND FOR A REASON.**

  A draft holds no shape twice, no tuple, and no name that is neither
  builtin, declared nor a name of another package.  What a name is written
  under tells it apart from all others.

  Main statement: `tidy_manifest` — the walk over a manifest leaves a tidy
  draft, in which names of other packages stand for structs without fields.
-/
import RpcSchema.Proofs.Manifest.Reading

namespace RpcSchema

/-! ## §1. Universes without tuples. -/

namespace Universe

section Push

variable {u : Universe} {n : NativeId} {k : NativeKind}
  (hshaped : ∀ n, u.Has n → (u.kind n).shape ≠ .tuple)
  (htuple : k.shape ≠ .tuple)
include hshaped htuple

/-- There is still no tuple. -/
theorem shaped_push (hn : (u.push k).2.Has n) : ((u.push k).2.kind n).shape ≠ .tuple := by
  rcases kind_push_cases hn with ⟨hn, heq⟩ | ⟨_, heq⟩
  · rw [heq]
    exact hshaped n hn
  · rw [heq]
    exact htuple

/-- No shape stands there twice, if the new one stood nowhere. -/
theorem single_push
    (hsingle : ∀ n m, u.Has n → (u.kind n).isNamed = false → u.kind n = u.kind m → n = m)
    (hnew : k.isNamed = false → ∀ m, u.Has m → u.kind m ≠ k) {m : NativeId}
    (hn : (u.push k).2.Has n) (hname : ((u.push k).2.kind n).isNamed = false)
    (heq : (u.push k).2.kind n = (u.push k).2.kind m) : n = m := by
  -- an entry with the kind of another cannot be out of range
  have hm : (u.push k).2.Has m := by
    refine has_of_kind_ne fun hk => shaped_push hshaped htuple hn ?_
    rw [heq, hk]
    rfl
  have hold : u.Single := fun a b ha _ => hsingle a b ha
  exact hold.push hnew n m hn hm hname heq

end Push

end Universe

/-! ## §2. Tidy drafts. -/

namespace Draft

/-- Where a named type comes from. -/
inductive Origin (d : Draft) (n : NativeId) (decl : NamedType) : Prop
  | builtin (hn : n = .error)
  | declared (hn : (decl.name, n) ∈ d.declared) (hpackage : decl.package = some d.path)
  | foreign {package : String} (hn : ((package, decl.name), n) ∈ d.foreigns)
      (hpackage : decl.package = some package)

/-- What holds of a draft between two steps of the walk, besides that it is well-formed. -/
structure Tidy (d : Draft) : Prop where
  /-- The builtin types are the predeclared ones. -/
  builtin : ∀ i < 21, d.types.kind (.entry i) = Universe.predeclared.kind (.entry i)
  shaped : ∀ n, d.types.Has n → (d.types.kind n).shape ≠ .tuple
  /-- No shape stands there twice. -/
  single : ∀ n m, d.types.Has n → (d.types.kind n).isNamed = false →
    d.types.kind n = d.types.kind m → n = m
  origin : ∀ n decl, d.types.kind n = .named decl → d.Origin n decl
  declared : ∀ x ∈ d.declared, (d.types.kind x.2).isNamed = true
  foreigns : ∀ x ∈ d.foreigns, (d.types.kind x.2).isNamed = true
  /-- No named type has two origins. -/
  apart : (NativeId.error :: (d.declared.map (·.2) ++ d.foreigns.map (·.2))).Nodup
  names : (d.declared.map (·.1)).Nodup
  keys : (d.foreigns.map (·.1)).Nodup
  /-- What a name stands for is not known yet, or is there. -/
  parts : ∀ n decl, d.types.kind n = .named decl →
    decl.underlying = .undefined ∨ d.types.Has decl.underlying

/-- Names of other packages stand for structs without fields. -/
def Opaque (d : Draft) : Prop :=
  ∀ x ∈ d.foreigns, ∃ shape, d.types.kind x.2 = .named ⟨x.1.2, some x.1.1, shape, []⟩ ∧
    d.types.kind shape = .struct []

variable {d : Draft}

/-- Named types are there. -/
theorem has_of_isNamed {u : Universe} {n : NativeId} (h : (u.kind n).isNamed = true) :
    u.Has n := by
  refine Universe.has_of_kind_ne fun hk => ?_
  rw [hk] at h
  cases h

/-- A tidy draft has the predeclared types. -/
theorem Tidy.size_le (h : d.Tidy) : 21 ≤ d.types.size := by
  have hkind : d.types.kind (.entry 20) ≠ .tuple [] := by
    rw [h.builtin 20 (by decide)]
    decide
  exact Universe.lt_size_of_has (Universe.has_of_kind_ne hkind)

/-- **The first draft is tidy.** -/
theorem start_tidy (path : String) (name? : Option String) : (start path name?).Tidy := by
  have hids : ∀ n, Universe.predeclared.Has n → ∃ i < 21, n = .entry i := by
    rintro n ⟨i, hi, rfl⟩
    exact ⟨i, hi, rfl⟩
  -- the only builtin name is that of `error`
  have hnamed : ∀ n decl, Universe.predeclared.kind n = .named decl →
      n = .error ∧ decl.underlying = Universe.errorShape := by
    intro n decl hn
    obtain ⟨i, hi, rfl⟩ := hids n (Universe.has_of_named hn)
    have hall : ∀ i < 21, (Universe.predeclared.kind (.entry i)).isNamed = true → i = 18 := by
      decide
    obtain rfl := hall i hi (by rw [hn]; rfl)
    cases hn
    exact ⟨rfl, rfl⟩
  have hshaped : ∀ i < 21, (Universe.predeclared.kind (.entry i)).shape ≠ .tuple := by
    decide
  constructor
  case builtin => exact fun _ _ => rfl
  case shaped =>
    intro n hn
    obtain ⟨i, hi, rfl⟩ := hids n hn
    exact hshaped i hi
  case single =>
    intro n m hn hname heq
    refine Universe.predeclared_single n m hn (Universe.has_of_kind_ne fun hk => ?_) hname heq
    obtain ⟨i, hi, rfl⟩ := hids n hn
    refine hshaped i hi ?_
    rw [show Universe.predeclared.kind (.entry i) = _ from heq.trans hk]
    rfl
  case origin => exact fun n decl hn => .builtin (hnamed n decl hn).1
  case declared => exact fun x hx => absurd hx List.not_mem_nil
  case foreigns => exact fun x hx => absurd hx List.not_mem_nil
  case apart => exact List.nodup_cons.2 ⟨List.not_mem_nil, List.nodup_nil⟩
  case names => exact List.nodup_nil
  case keys => exact List.nodup_nil
  case parts =>
    intro n decl hn
    rw [(hnamed n decl hn).2]
    exact Or.inr ⟨20, Nat.lt_succ_self 20, rfl⟩

theorem start_opaque (path : String) (name? : Option String) : (start path name?).Opaque :=
  fun _ hx => absurd hx List.not_mem_nil

/-- The builtin name stands for an interface. -/
theorem Tidy.underlying_error (h : d.Tidy) {decl : NamedType}
    (hn : d.types.kind .error = .named decl) :
    d.types.kind decl.underlying = .interface ⟨[Universe.errorMethod], []⟩ := by
  obtain rfl := NativeKind.named.inj ((h.builtin 18 (by decide)).symm.trans hn)
  exact h.builtin 20 (by decide)

/-- A name of another package stands for a struct without fields. -/
theorem Opaque.underlying (h : d.Opaque) {package : String} {n : NativeId} {decl : NamedType}
    (hmem : ((package, decl.name), n) ∈ d.foreigns) (hn : d.types.kind n = .named decl) :
    d.types.kind decl.underlying = .struct [] := by
  obtain ⟨shape, hk, hshape⟩ := h _ hmem
  rw [← NativeKind.named.inj (hk.symm.trans hn)]
  exact hshape

/-! ## §3. Adding entries. -/

/-- A type has its origin while declarations are only added. -/
theorem Origin.mono {d' : Draft} {n : NativeId} {decl decl' : NamedType} (h : d.Origin n decl)
    (hpath : d'.path = d.path) (hdeclared : ∀ x ∈ d.declared, x ∈ d'.declared)
    (hforeigns : ∀ x ∈ d.foreigns, x ∈ d'.foreigns) (hname : decl'.name = decl.name)
    (hpackage : decl'.package = decl.package) : d'.Origin n decl' := by
  cases h with
  | builtin hn => exact .builtin hn
  | declared hn hp =>
    exact .declared (hname ▸ hdeclared _ hn) (by rw [hpackage, hp, hpath])
  | foreign hn hp => exact .foreign (hname ▸ hforeigns _ hn) (hpackage.trans hp)

/-- Whether a draft is tidy shows in its types and in where they come from. -/
theorem Tidy.congr (h : d.Tidy) {d' : Draft} (htypes : d'.types = d.types)
    (hpath : d'.path = d.path) (hdeclared : d'.declared = d.declared)
    (hforeigns : d'.foreigns = d.foreigns) : d'.Tidy where
  builtin := htypes ▸ h.builtin
  shaped := htypes ▸ h.shaped
  single := htypes ▸ h.single
  origin n decl hn := (h.origin n decl (htypes ▸ hn)).mono hpath
    (fun _ hx => hdeclared ▸ hx) (fun _ hx => hforeigns ▸ hx) rfl rfl
  declared := htypes ▸ hdeclared ▸ h.declared
  foreigns := htypes ▸ hforeigns ▸ h.foreigns
  apart := by rw [hdeclared, hforeigns]; exact h.apart
  names := hdeclared ▸ h.names
  keys := hforeigns ▸ h.keys
  parts := htypes ▸ h.parts

/-- The types that have a name are there, and the next entry is none of them. -/
theorem Tidy.not_mem_apart (h : d.Tidy) (k : NativeKind) :
    (d.types.push k).1 ∉ NativeId.error :: (d.declared.map (·.2) ++ d.foreigns.map (·.2)) := by
  intro hmem
  refine Universe.not_has_push d.types k ?_
  -- the new id is none of those handed out before
  rcases List.mem_cons.1 hmem with heq | hmem
  · exact heq ▸ ⟨18, Nat.lt_of_lt_of_le (by decide) h.size_le, rfl⟩
  · rcases List.mem_append.1 hmem with hmem | hmem
    · obtain ⟨x, hx, heq⟩ := List.mem_map.1 hmem
      exact heq ▸ has_of_isNamed (h.declared x hx)
    · obtain ⟨x, hx, heq⟩ := List.mem_map.1 hmem
      exact heq ▸ has_of_isNamed (h.foreigns x hx)

/-- What is new may be put into either of two lists. -/
theorem nodup_cons_append_append {α : Type} {a : α} {l l' s s' : List α}
    (h : (a :: (l ++ l')).Nodup) (hs : (s ++ s').Nodup)
    (hnew : ∀ x ∈ s ++ s', x ∉ a :: (l ++ l')) : (a :: ((l ++ s) ++ (l' ++ s'))).Nodup := by
  have hperm : ((l ++ s) ++ (l' ++ s')).Perm ((l ++ l') ++ (s ++ s')) := by
    rw [List.append_assoc, List.append_assoc]
    exact (List.perm_append_comm_assoc s l' s').append_left l
  rw [(hperm.cons a).nodup_iff]
  exact List.nodup_append.2 ⟨h, hs, fun x hx y hy hxy => hnew y hy (hxy ▸ hx)⟩

/-- An entry may be added that stands nowhere yet, or that has a name with an origin of its
own: at most one of the lists gets an item for it. -/
theorem Tidy.push (h : d.Tidy) {d' : Draft} {k : NativeKind}
    (ds : List (String × NativeId)) (fs : List ((String × String) × NativeId))
    (htypes : d'.types = (d.types.push k).2) (hpath : d'.path = d.path)
    (hdeclared : d'.declared = d.declared ++ ds) (hforeigns : d'.foreigns = d.foreigns ++ fs)
    (htuple : k.shape ≠ .tuple) (hnew : k.isNamed = false → ∀ m, d.types.Has m → d.types.kind m ≠ k)
    (hname : ∀ decl, k = .named decl → decl.underlying = .undefined ∧
      d'.Origin (d.types.push k).1 decl)
    (hitems : ∀ id ∈ ds.map (·.2) ++ fs.map (·.2), k.isNamed = true ∧ id = (d.types.push k).1)
    (hone : (ds.map (·.2) ++ fs.map (·.2)).Nodup)
    (hnames : (d'.declared.map (·.1)).Nodup) (hkeys : (d'.foreigns.map (·.1)).Nodup) :
    d'.Tidy := by
  -- the new type is the only one that looks different
  have hold : ∀ {n}, d.types.Has n → d'.types.kind n = d.types.kind n := fun hn => by
    rw [htypes, Universe.kind_push_of_has k hn]
  have hnamed : ∀ {n}, k.isNamed = true ∧ n = (d.types.push k).1 →
      (d'.types.kind n).isNamed = true := by
    rintro n ⟨hk, rfl⟩
    rw [htypes, Universe.kind_push, hk]
  constructor
  case builtin =>
    intro i hi
    rw [← h.builtin i hi]
    exact hold ⟨i, Nat.lt_of_lt_of_le hi h.size_le, rfl⟩
  case shaped => exact htypes ▸ fun n hn => Universe.shaped_push h.shaped htuple hn
  case single =>
    rw [htypes]
    exact fun n m hn hun heq => Universe.single_push h.shaped htuple h.single hnew hn hun heq
  case origin =>
    intro n decl hn
    rw [htypes] at hn
    rcases Universe.named_push_cases hn with hn | ⟨rfl, hk⟩
    · exact (h.origin n decl hn).mono hpath (fun x hx => hdeclared ▸ List.mem_append_left ds hx)
        (fun x hx => hforeigns ▸ List.mem_append_left fs hx) rfl rfl
    · exact (hname decl hk).2
  case declared =>
    intro x hx
    rw [hdeclared] at hx
    rcases List.mem_append.1 hx with hx | hx
    · rw [hold (has_of_isNamed (h.declared x hx))]
      exact h.declared x hx
    · exact hnamed (hitems x.2 (List.mem_append_left _ (List.mem_map.2 ⟨x, hx, rfl⟩)))
  case foreigns =>
    intro x hx
    rw [hforeigns] at hx
    rcases List.mem_append.1 hx with hx | hx
    · rw [hold (has_of_isNamed (h.foreigns x hx))]
      exact h.foreigns x hx
    · exact hnamed (hitems x.2 (List.mem_append_right _ (List.mem_map.2 ⟨x, hx, rfl⟩)))
  -- the new id was on no list
  case apart =>
    rw [hdeclared, hforeigns, List.map_append, List.map_append]
    refine nodup_cons_append_append h.apart hone fun id hid => ?_
    rw [(hitems id hid).2]
    exact h.not_mem_apart k
  case names => exact hnames
  case keys => exact hkeys
  case parts =>
    intro n decl hn
    rw [htypes] at hn ⊢
    rcases Universe.named_push_cases hn with hn | ⟨rfl, hk⟩
    · exact (h.parts n decl hn).imp_right fun hp => Universe.has_push_iff.2 (Or.inl hp)
    · exact Or.inl (hname decl hk).1

/-- **A shape may be interned.** -/
theorem Tidy.shape (h : d.Tidy) {k : NativeKind} (hname : k.isNamed = false)
    (htuple : k.shape ≠ .tuple) : ((d.build (·.intern k)).2).Tidy := by
  rcases d.types.intern_cases k with ⟨m, _, _, heq⟩ | ⟨hnew, heq⟩
  · -- it stands there already
    have hsame : (d.build (·.intern k)).2 = d := by simp only [build, heq]
    rwa [hsame]
  · have hadd : (d.build (·.intern k)).2 = { d with types := (d.types.push k).2 } := by
      simp only [build, heq]
    rw [hadd]
    have hnone : ∀ decl, k ≠ .named decl := by
      rintro decl rfl
      cases hname
    exact h.push [] [] rfl rfl (List.append_nil _).symm (List.append_nil _).symm
      htuple (fun _ => hnew) (fun decl hk => absurd hk (hnone decl))
      (fun id hid => absurd hid List.not_mem_nil) List.nodup_nil h.names h.keys

theorem nodup_map_append {α β : Type} {f : α → β} {l : List α} {x : α} (h : (l.map f).Nodup)
    (hx : f x ∉ l.map f) : ((l ++ [x]).map f).Nodup := by
  rw [List.map_append]
  exact (List.perm_append_singleton _ _).nodup_iff.2 (List.nodup_cons.2 ⟨hx, h⟩)

/-- **A type may be declared.**  A name that is taken is only noted down. -/
theorem Tidy.declare (h : d.Tidy) (name : String) : (d.declare name).2.Tidy := by
  unfold Draft.declare
  split
  · exact h.congr rfl rfl rfl rfl
  · -- a new name: one more named type, without underlying type so far
    rename_i hnone
    refine h.push (k := .named ⟨name, some d.path, .undefined, []⟩)
      [(name, .entry d.types.size)] [] rfl rfl rfl (List.append_nil _).symm
      (by simp [NativeKind.shape]) (fun hun => by cases hun) (fun decl hk => ?_) (fun id hid => ?_)
      (by simp) (nodup_map_append h.names (Sequence.lookup_eq_none_iff.1 hnone)) h.keys
    · obtain rfl := NativeKind.named.inj hk
      exact ⟨rfl, .declared (List.mem_append_right _ List.mem_cons_self) rfl⟩
    · exact ⟨rfl, List.mem_singleton.1 hid⟩

/-- A name of another package that is met for the first time is added, and then made a struct
without fields. -/
theorem foreign_eq_of_lookup {package name : String}
    (hnone : d.foreigns.lookup (package, name) = none) :
    d.foreign package name =
      (.entry d.types.size,
        Draft.define
          (({ d with
              types := (d.types.declareNamed name (some package)).2
              foreigns := d.foreigns ++ [((package, name), .entry d.types.size)] } : Draft).build
            (·.intern (.struct []))).2
          (.entry d.types.size)
          (({ d with
              types := (d.types.declareNamed name (some package)).2
              foreigns := d.foreigns ++ [((package, name), .entry d.types.size)] } : Draft).build
            (·.intern (.struct []))).1) := by
  unfold Draft.foreign
  rw [hnone]
  rfl

/-- A draft stays tidy when a name of another package is added. -/
theorem Tidy.addForeign (h : d.Tidy) {package name : String}
    (hnone : d.foreigns.lookup (package, name) = none) :
    Tidy { d with
      types := (d.types.declareNamed name (some package)).2
      foreigns := d.foreigns ++ [((package, name), .entry d.types.size)] } := by
  refine h.push (k := .named ⟨name, some package, .undefined, []⟩) []
    [((package, name), .entry d.types.size)] rfl rfl (List.append_nil _).symm rfl
    (by simp [NativeKind.shape]) (fun hun => by cases hun) (fun decl hk => ?_)
    (fun id hid => ?_) (by simp) h.names
    (nodup_map_append h.keys (Sequence.lookup_eq_none_iff.1 hnone))
  · obtain rfl := NativeKind.named.inj hk
    exact ⟨rfl, .foreign (List.mem_append_right _ List.mem_cons_self) rfl⟩
  · exact ⟨rfl, List.mem_singleton.1 hid⟩

/-! ## §4. Changing declarations. -/

/-- **The declaration of a named type may change**, but for its name and package. -/
theorem Tidy.modify (h : d.Tidy) {id : NativeId} (hid : id ≠ .error)
    {f : NamedType → NamedType} (hname : ∀ decl, (f decl).name = decl.name)
    (hpackage : ∀ decl, (f decl).package = decl.package)
    (hparts : ∀ decl, d.types.kind id = .named decl →
      (f decl).underlying = .undefined ∨ d.types.Has (f decl).underlying) :
    Tidy { d with types := d.types.modifyNamed id f } := by
  have hhas : ∀ n, (d.types.modifyNamed id f).Has n ↔ d.types.Has n := fun _ =>
    Universe.has_modifyNamed
  constructor
  case builtin =>
    intro i hi
    rw [← h.builtin i hi]
    by_cases hie : NativeId.entry i = id
    · -- the only builtin name is that of `error`
      refine Universe.kind_modifyNamed_of_not_named id f ?_
      rw [h.builtin i hi]
      have hall : ∀ i < 21, i ≠ 18 → (Universe.predeclared.kind (.entry i)).isNamed = false := by
        decide
      exact hall i hi fun he => hid (by rw [← hie, he]; rfl)
    · exact Universe.kind_modifyNamed_of_ne f hie
  case shaped =>
    intro n hn
    rcases Universe.kind_modifyNamed d.types id f n with hk | ⟨decl, _, hk⟩
    · rw [hk]
      exact h.shaped n ((hhas n).1 hn)
    · rw [hk]
      simp [NativeKind.shape]
  case single =>
    intro n m hn hun heq
    rw [Universe.isNamed_modifyNamed] at hun
    have hkn := Universe.kind_modifyNamed_of_not_named id f hun
    have hun' : (d.types.kind m).isNamed = false := by
      rw [← Universe.isNamed_modifyNamed d.types id f, ← heq, hkn]
      exact hun
    have hkm := Universe.kind_modifyNamed_of_not_named id f hun'
    exact h.single n m ((hhas n).1 hn) hun (hkn.symm.trans (heq.trans hkm))
  case origin =>
    intro n decl hn
    rcases Universe.kind_modifyNamed d.types id f n with hk | ⟨decl', hold, hk⟩
    · exact (h.origin n decl (hk ▸ hn)).mono rfl (fun _ hx => hx) (fun _ hx => hx) rfl rfl
    · obtain rfl := NativeKind.named.inj (hk.symm.trans hn)
      exact (h.origin n decl' hold).mono rfl (fun _ hx => hx) (fun _ hx => hx) (hname decl')
        (hpackage decl')
  case declared =>
    intro x hx
    show ((d.types.modifyNamed id f).kind x.2).isNamed = true
    rw [Universe.isNamed_modifyNamed]
    exact h.declared x hx
  case foreigns =>
    intro x hx
    show ((d.types.modifyNamed id f).kind x.2).isNamed = true
    rw [Universe.isNamed_modifyNamed]
    exact h.foreigns x hx
  case apart => exact h.apart
  case names => exact h.names
  case keys => exact h.keys
  case parts =>
    intro n decl hn
    rw [show Universe.Has _ decl.underlying ↔ _ from hhas _]
    by_cases hni : n = id
    · rcases Universe.kind_modifyNamed d.types id f n with hk | ⟨decl', hold, hk⟩
      · exact h.parts n decl (hk ▸ hn)
      · obtain rfl := NativeKind.named.inj (hk.symm.trans hn)
        exact hparts decl' (hni ▸ hold)
    · exact h.parts n decl (Universe.kind_modifyNamed_of_ne f hni ▸ hn)

theorem Tidy.define (h : d.Tidy) {id target : NativeId} (hid : id ≠ .error)
    (htarget : d.types.Has target) : (d.define id target).Tidy :=
  h.modify hid (fun _ => rfl) (fun _ => rfl) fun _ _ => Or.inr htarget

theorem Tidy.addMethod (h : d.Tidy) {id : NativeId} (hid : id ≠ .error) (m : Method) :
    (d.addMethod id m).Tidy :=
  h.modify hid (fun _ => rfl) (fun _ => rfl) fun decl hn => h.parts id decl hn

/-- A draft stays tidy when a name of another package is looked up, whether it is new or not. -/
theorem Tidy.foreign (h : d.Tidy) (package name : String) :
    (d.foreign package name).2.Tidy := by
  cases hlook : d.foreigns.lookup (package, name) with
  | some id =>
    have hsame : d.foreign package name = (id, d) := by
      unfold Draft.foreign
      rw [hlook]
    rw [hsame]
    exact h
  | none =>
    rw [foreign_eq_of_lookup hlook]
    refine ((h.addForeign hlook).shape rfl (by simp [NativeKind.shape])).define ?_
      (Universe.has_intern _)
    intro he
    -- the new type would have to be a predeclared one
    have hsize : d.types.size = 18 := NativeId.entry.inj he
    have := h.size_le
    omega

/-- A declared type is not the builtin one. -/
theorem Tidy.ne_error (h : d.Tidy) {id : NativeId} (hid : id ∈ d.declared.map (·.2)) :
    id ≠ .error := by
  rintro rfl
  exact (List.nodup_cons.1 h.apart).1 (List.mem_append_left _ hid)

/-! ## §5. Names of other packages. -/

/-- Names of other packages stay opaque while types are only added. -/
theorem Opaque.mono (h : d.Opaque) {d' : Draft} (hforeigns : d'.foreigns = d.foreigns)
    (hkind : ∀ n, d.types.Has n → d'.types.kind n = d.types.kind n) : d'.Opaque := by
  intro x hx
  obtain ⟨shape, hn, hshape⟩ := h x (hforeigns ▸ hx)
  refine ⟨shape, ?_, ?_⟩
  · rw [hkind _ (Universe.has_of_named hn), hn]
  · rw [hkind _ (Universe.has_of_kind_ne (by simp [hshape])), hshape]

/-- The declaration of a type that is no foreign one may change. -/
theorem Opaque.modify (h : d.Opaque) {id : NativeId} (hid : id ∉ d.foreigns.map (·.2))
    (f : NamedType → NamedType) : Opaque { d with types := d.types.modifyNamed id f } := by
  intro x hx
  obtain ⟨shape, hn, hshape⟩ := h x hx
  have hne : x.2 ≠ id := fun he => hid (List.mem_map.2 ⟨x, hx, he⟩)
  refine ⟨shape, ?_, ?_⟩
  · rw [Universe.kind_modifyNamed_of_ne f hne, hn]
  · rw [Universe.kind_modifyNamed_of_not_named id f (by rw [hshape]; rfl), hshape]

/-- Names of other packages stay opaque when one is looked up. -/
theorem Opaque.foreign (h : d.Opaque) (package name : String) :
    (d.foreign package name).2.Opaque := by
  cases hlook : d.foreigns.lookup (package, name) with
  | some id =>
    have hsame : d.foreign package name = (id, d) := by
      unfold Draft.foreign
      rw [hlook]
    rw [hsame]
    exact h
  | none =>
    rw [foreign_eq_of_lookup hlook]
    -- the universe with the new name, and with the shape of all opaque types
    obtain ⟨u, hu⟩ : ∃ u, (d.types.declareNamed name (some package)).2 = u := ⟨_, rfl⟩
    have hnew : u.kind (.entry d.types.size) = .named ⟨name, some package, .undefined, []⟩ :=
      hu ▸ Universe.kind_push d.types _
    have hold : ∀ n, d.types.Has n → u.kind n = d.types.kind n :=
      fun n hn => hu ▸ Universe.kind_push_of_has _ hn
    have hgrow : ∀ n, d.types.Has n → u.Has n :=
      fun n hn => hu ▸ Universe.has_push_iff.2 (Or.inl hn)
    simp only [hu]
    intro x hx
    rcases List.mem_append.1 hx with hx | hx
    · obtain ⟨shape, hn, hshape⟩ := h x hx
      have hkeep : ∀ n, d.types.Has n → ((u.intern (.struct [])).2.setUnderlying
          (.entry d.types.size) (u.intern (.struct [])).1).kind n = d.types.kind n := by
        intro n hn
        rw [Universe.kind_defineShape_of_ne (hgrow n hn), hold n hn]
        rintro rfl
        exact Nat.lt_irrefl _ (Universe.lt_size_of_has hn)
      exact ⟨shape, (hkeep _ (Universe.has_of_named hn)).trans hn,
        (hkeep _ (Universe.has_of_kind_ne (by simp [hshape]))).trans hshape⟩
    · rw [List.mem_singleton.1 hx]
      exact ⟨(u.intern (.struct [])).1, Universe.kind_defineShape_self hnew,
        Universe.kind_defineShape_shape rfl⟩

end Draft

/-! ## §6. The walk. -/

namespace Building

/-- What holds of a draft while types are defined: it is tidy, and which types are declared is
settled. -/
def Settled (declared : List (String × NativeId)) (d : Draft) : Prop :=
  d.Tidy ∧ d.Opaque ∧ d.declared = declared

theorem declared_foreign (d : Draft) (package name : String) :
    (d.foreign package name).2.declared = d.declared := by
  unfold Draft.foreign
  split <;> rfl

/-- What is declared stays settled while expressions are read. -/
theorem outlasts_settled (declared : List (String × NativeId)) : Outlasts (Settled declared) where
  shape {_ k} _ h hname htuple _ :=
    ⟨h.1.shape hname htuple, h.2.1.mono rfl fun _ hn => Universe.kind_intern_of_has k hn, h.2.2⟩
  foreign {d} package name _ h :=
    ⟨h.1.foreign package name, h.2.1.foreign package name,
      (declared_foreign d package name).trans h.2.2⟩

/-- A declared type is none of another package. -/
theorem Settled.not_mem_foreigns {declared : List (String × NativeId)} {d : Draft}
    {id : NativeId} (h : Settled declared d) (hid : id ∈ declared.map (·.2)) :
    id ∉ d.foreigns.map (·.2) := by
  obtain ⟨htidy, _, rfl⟩ := h
  intro hmem
  exact (List.nodup_append.1 (List.nodup_cons.1 htidy.apart).2).2.2 id hid id hmem rfl

theorem outlastsDefining_settled {declared : List (String × NativeId)} {id : NativeId}
    (hid : id ∈ declared.map (·.2)) : OutlastsDefining (Settled declared) id where
  toOutlasts := outlasts_settled declared
  define _ h htarget :=
    ⟨h.1.define (h.1.ne_error (h.2.2 ▸ hid)) htarget, h.2.1.modify (h.not_mem_foreigns hid) _, h.2.2⟩
  addMethod m _ h :=
    ⟨h.1.addMethod (h.1.ne_error (h.2.2 ▸ hid)) m, h.2.1.modify (h.not_mem_foreigns hid) _, h.2.2⟩

/-- A type that is declared is listed, with its name. -/
theorem mem_declare (d : Draft) (name : String) :
    (name, (d.declare name).1) ∈ (d.declare name).2.declared ∧
      ∀ x ∈ d.declared, x ∈ (d.declare name).2.declared := by
  have hlook := Draft.lookup_declare_self d name
  refine ⟨Sequence.mem_of_lookup hlook, fun x hx => ?_⟩
  unfold Draft.declare
  split
  · exact hx
  · exact List.mem_append_left _ hx

/-- Names of other packages stay opaque when one of this package is declared. -/
theorem opaque_declare {d : Draft} (h : d.Opaque) (name : String) :
    (d.declare name).2.Opaque := by
  unfold Draft.declare
  split
  · exact h
  · exact h.mono rfl fun n hn => Universe.kind_push_of_has _ hn

/-- All types are declared before any is defined. -/
theorem declared_of_runs {decls : List TypeDecl} {d d' : Draft} {ids : List NativeId}
    (hrun : Runs (decls.mapM fun decl => (modifyGet (·.declare decl.name) : Building NativeId))
      d ids d') (hd : d.Formed) (htidy : d.Tidy) (hfar : d.Opaque) :
    d'.Formed ∧ d'.Tidy ∧ d'.Opaque ∧ (∀ x ∈ d.declared, x ∈ d'.declared) ∧
      ∀ id ∈ ids, id ∈ d'.declared.map (·.2) := by
  -- on the declarations that are left
  induction decls generalizing d ids with
  | nil =>
    obtain ⟨rfl, rfl⟩ := runs_mapM_nil.1 hrun
    exact ⟨hd, htidy, hfar, fun _ hx => hx, fun _ h => absurd h List.not_mem_nil⟩
  | cons decl decls ih =>
    obtain ⟨id, d₁, rest, hfirst, hrest, rfl⟩ := runs_mapM_cons.1 hrun
    have heq := runs_modifyGet.1 hfirst
    obtain rfl : (d.declare decl.name).1 = id := congrArg Prod.fst heq
    obtain rfl : (d.declare decl.name).2 = d₁ := congrArg Prod.snd heq
    have hd₁ := (forms_declare decl.name d _ _ hd trivial hfirst).1
    obtain ⟨hf, ht, ho, hmem, hids⟩ :=
      ih hrest hd₁ (htidy.declare _) (opaque_declare hfar _)
    obtain ⟨hself, hkeep⟩ := mem_declare d decl.name
    refine ⟨hf, ht, ho, fun x hx => hmem x (hkeep x hx), fun id hid => ?_⟩
    rcases List.mem_cons.1 hid with rfl | hid
    · exact List.mem_map.2 ⟨_, hmem _ hself, rfl⟩
    · exact hids id hid

/-- **The walk over a manifest leaves a tidy draft**, in which names of other packages stand for
structs without fields. -/
theorem tidy_manifest {m : Manifest} {d : Draft}
    (hrun : Runs (manifest m) (Draft.start m.path m.name) ⟨⟩ d) : d.Formed ∧ d.Tidy ∧ d.Opaque := by
  unfold manifest at hrun
  obtain ⟨ids, d₁, hdeclare, hrun⟩ := runs_bind.1 hrun
  obtain ⟨_, d₂, htypes, hconstants⟩ := runs_bind.1 hrun
  obtain ⟨hf₁, ht₁, ho₁, _, hids⟩ := declared_of_runs hdeclare
    (Draft.start_formed m.path m.name) (Draft.start_tidy _ _) (Draft.start_opaque _ _)
  -- while types are defined, what is declared does not change
  have hdefine : Keeps (Settled d₁.declared) ((ids.zip m.types).forM fun x => type x.1 x.2) :=
    keeps_forM fun x hx =>
      keeps_type (outlastsDefining_settled (hids x.1 (List.of_mem_zip hx).1)) x.2
  obtain ⟨hf₂, _, hs₂⟩ := hdefine d₁ _ d₂ hf₁ ⟨ht₁, ho₁, rfl⟩ htypes
  have hadd : ∀ (d : Draft) (name literal : String) (type : NativeId),
      Settled d₁.declared d → Settled d₁.declared (d.addConstant name type literal) := by
    intro d name literal type h
    exact ⟨h.1.congr rfl rfl rfl rfl, h.2.1, h.2.2⟩
  have hconst : Keeps (Settled d₁.declared) (m.constants.forM constant) :=
    keeps_forM fun c _ => keeps_constant (outlasts_settled _) hadd c
  obtain ⟨hf₃, _, hs₃⟩ := hconst d₂ _ d hf₂ hs₂ hconstants
  exact ⟨hf₃, hs₃.1, hs₃.2.1⟩

end Building

end RpcSchema
