/-
  RpcSchema.Proofs.Proto.EnumBlocks
  ─────────────────────────────────
  **WHICH ENUM BLOCKS ARE LEGAL.**

  A legal enum of the schema language begins with the member of zero, and
  no two members share an ordinal or a name.  Ordinals are never shared.
  But members ascend by ordinal, so one that is negative comes before
  zero; and a constant may have the very name that is made up for a zero
  which no constant has.  Nothing else stands against it.

  Main statement: `enum_legal_iff`.
-/
import RpcSchema.Proofs.Conversion.Members
import RpcSchema.Proofs.Manifest.Reordering
import RpcSchema.Proofs.Proto.NameOrder

namespace RpcSchema

/-! ## §1. Legal members. -/

namespace Enumeration

/-- The members of a legal enum. -/
structure Legal (members : List EnumMember) : Prop where
  zero_first : (members.map (·.ordinal)).head? = some 0
  ordinals : (members.map (·.ordinal)).Nodup
  names : (members.map (·.name)).Nodup

/-- No constant has an ordinal below zero. -/
def NoneNegative (constants : List (String × String)) : Prop :=
  ∀ o, Taken constants o → 0 ≤ o

/-- No constant has the name of a member that is made up for zero. -/
def ZeroNameFree (type : String) (constants : List (String × String)) : Prop :=
  Taken constants 0 ∨ ∀ i literal o, ¬ First constants i (type ++ "Internal") literal o

variable {type : String} {constants : List (String × String)} {o o' : Int}

/-! ### Zero -/

/-- The first member is that of zero exactly if no constant is negative. -/
theorem zero_first_iff :
    ((buildMembers type constants).map (·.ordinal)).head? = some 0 ↔ NoneNegative constants := by
  have hmem : ∀ {o}, o ∈ (buildMembers type constants).map (·.ordinal) ↔
      o = 0 ∨ Taken constants o := ordinal_mem_buildMembers_iff
  have hascends : ((buildMembers type constants).map (·.ordinal)).Pairwise (· < ·) :=
    List.pairwise_map.2 (buildMembers_ascends type constants)
  generalize (buildMembers type constants).map (·.ordinal) = ordinals at hmem hascends
  cases ordinals with
  | nil => exact absurd (hmem.2 (Or.inl rfl)) List.not_mem_nil
  | cons least rest =>
    -- the ordinals ascend, so the first of them is the least
    have hleast : ∀ {o}, o ∈ least :: rest → least ≤ o := by
      intro o ho
      rcases List.mem_cons.1 ho with rfl | ho
      · exact Int.le_refl _
      · exact Int.le_of_lt (List.rel_of_pairwise_cons hascends ho)
    rw [List.head?_cons, Option.some.injEq]
    constructor
    · intro hzero o ho
      rw [← hzero]
      exact hleast (hmem.2 (Or.inr ho))
    · intro hnonneg
      have hle : least ≤ 0 := hleast (hmem.2 (Or.inl rfl))
      rcases hmem.1 List.mem_cons_self with hzero | htaken
      · exact hzero
      · exact Int.le_antisymm hle (hnonneg least htaken)

/-! ### Names -/

theorem name_memberAt (i : Nat) (name literal : String) :
    (memberAt i name literal).name = name := by
  unfold memberAt
  split <;> rfl

/-- The first constant of an ordinal is a member under its name. -/
theorem First.exists_member {i : Nat} {name literal : String} (type : String)
    (h : First constants i name literal o) :
    ∃ m ∈ buildMembers type constants, m.name = name ∧ m.ordinal = o := by
  have ho : (memberAt i name literal).ordinal = o := Ordinal.ordinal_memberAt_iff.2 h.assigned
  refine ⟨memberAt i name literal, ?_, name_memberAt i name literal, ho⟩
  exact mem_buildMembers_iff.2 (hasMember_iff.2 (Or.inl ⟨i, name, literal, ho ▸ h, rfl⟩))

/-- A member has the name of a first constant, or is the one that is made up for zero. -/
theorem first_or_zero {m : EnumMember} (h : m ∈ buildMembers type constants) :
    (∃ i literal, First constants i m.name literal m.ordinal) ∨
      ¬ Taken constants 0 ∧ m = zeroMember type := by
  obtain ⟨i, name, literal, hfirst, hm⟩ | ⟨hzero, hm⟩ := hasMember_iff.1 (mem_buildMembers_iff.1 h)
  · have hname : m.name = name := by rw [← hm, name_memberAt]
    exact Or.inl ⟨i, literal, hname ▸ hfirst⟩
  · exact Or.inr ⟨hzero, hm.symm⟩

/-- If constants have different names, one name is the first of one ordinal. -/
theorem First.unique (hnodup : (constants.map (·.1)).Nodup) {i i' : Nat}
    {name literal literal' : String} (h : First constants i name literal o)
    (h' : First constants i' name literal' o') : o = o' := by
  have hi : (constants.map (·.1))[i]? = some name := by rw [List.getElem?_map, h.declared]; rfl
  have hi' : (constants.map (·.1))[i']? = some name := by rw [List.getElem?_map, h'.declared]; rfl
  obtain rfl : i = i' :=
    (List.getElem?_inj (List.getElem?_eq_some_iff.1 hi).1 hnodup).1 (hi.trans hi'.symm)
  obtain ⟨_, rfl⟩ := Prod.mk.inj (Option.some.inj (h.declared.symm.trans h'.declared))
  exact h.assigned.unique h'.assigned

/-- If the name for zero is free, too, one name is that of one member. -/
theorem ordinal_eq_of_name_eq (hnodup : (constants.map (·.1)).Nodup)
    (hfree : ZeroNameFree type constants) {a b : EnumMember}
    (ha : a ∈ buildMembers type constants) (hb : b ∈ buildMembers type constants)
    (hname : a.name = b.name) : a.ordinal = b.ordinal := by
  -- two constants, a constant and the added member, or that member twice
  obtain ⟨i, literal, hfirst⟩ | ⟨hzero, rfl⟩ := first_or_zero ha
  · obtain ⟨i', literal', hfirst'⟩ | ⟨hzero', rfl⟩ := first_or_zero hb
    · rw [← hname] at hfirst'
      exact hfirst.unique hnodup hfirst'
    · rw [hname] at hfirst
      exact absurd hfirst (hfree.resolve_left hzero' i literal _)
  · obtain ⟨i', literal', hfirst'⟩ | ⟨_, rfl⟩ := first_or_zero hb
    · rw [← hname] at hfirst'
      exact absurd hfirst' (hfree.resolve_left hzero i' literal' _)
    · rfl

/-- The members of constants with different names have different names exactly if none of them is
that of a member that is made up for zero. -/
theorem nodup_names_iff (hnodup : (constants.map (·.1)).Nodup) :
    ((buildMembers type constants).map (·.name)).Nodup ↔ ZeroNameFree type constants := by
  constructor
  · intro hnames
    by_cases hzero : Taken constants 0
    · exact Or.inl hzero
    · refine Or.inr fun i literal o hfirst => hzero ?_
      obtain ⟨m, hm, hname, rfl⟩ := hfirst.exists_member type
      have hmade : zeroMember type ∈ buildMembers type constants :=
        mem_buildMembers_iff.2 (.zero hzero)
      -- the constant and the member for zero would be one, but then zero is taken
      obtain rfl : m = zeroMember type := List.inj_on_of_nodup_map hnames hm hmade hname
      exact ⟨i, _, literal, hfirst.declared, hfirst.assigned⟩
  · intro hfree
    show ((buildMembers type constants).map (·.name)).Pairwise (· ≠ ·)
    rw [List.pairwise_map]
    refine (buildMembers_ascends type constants).imp_of_mem ?_
    intro a b ha hb hlt hname
    have heq := ordinal_eq_of_name_eq hnodup hfree ha hb hname
    omega

end Enumeration

/-! ## §2. The enumerations of a manifest. -/

namespace Manifest

variable {m : Manifest} {pkg : Package} {n : NativeId}

/-- The constants of a declared type, each by name and literal. -/
def literalsOf (m : Manifest) (name : String) : List (String × String) :=
  (m.constantsOf name).map fun decl => (decl.name, decl.literal)

/-- Constants of different names stay so when those of one type are picked. -/
theorem nodup_literalsOf (h : (m.constants.map (·.name)).Nodup) (name : String) :
    ((m.literalsOf name).map (·.1)).Nodup := by
  unfold literalsOf constantsOf
  rw [List.map_map]
  exact h.sublist (List.filter_sublist.map _)

/-- **The enumerations are built from what the manifest lists.** -/
theorem members_of_lookup_enums (h : m.build = .ok pkg) {e : Enumeration}
    (he : pkg.enums.lookup n = some e) : e.members = buildMembers e.name (m.literalsOf e.name) := by
  obtain ⟨d₀, d, hroute, _, hfinish⟩ := exists_route h
  obtain ⟨decl, kind, hn, hlocal, hkind, _, rfl⟩ := Package.lookup_enums_eq_some_iff.1 he
  obtain ⟨name, hname⟩ := Draft.lookup_of_isEnumerable hroute.tidy hroute.far hfinish
    (Package.isEnumerable_iff.2 ⟨⟨decl, hn, hlocal⟩, kind, hkind⟩)
  obtain ⟨decl', hdecl', hname', _⟩ :=
    Draft.named_of_finish hroute.tidy hfinish (Sequence.mem_of_lookup hname)
  -- the enumeration and the declaration are of one type
  obtain rfl : decl = decl' :=
    Option.some.inj ((Universe.named?_eq_some_iff.2 hn).symm.trans hdecl')
  obtain rfl : decl.name = name := hname'
  obtain ⟨_, _, hpkg⟩ := Draft.frozen_of_finish hroute.tidy hfinish
  show buildMembers decl.name (pkg.constantsOf n) = buildMembers decl.name (m.literalsOf decl.name)
  unfold Package.constantsOf literalsOf
  rw [show pkg.constants = d.constants by rw [hpkg], hroute.constants_of_declared hname]

end Manifest

/-! ## §3. Enum blocks. -/

namespace Package

variable {pkg : Package} {o : CompileOptions} {schema : Schema}

/-- A block with an enum is that of an enumeration. -/
theorem enum_of_compile (h : pkg.compile o = .ok schema) {b : Block}
    (hb : b ∈ schema.document.blocks) {members : List EnumMember} (hbody : b.body = .enum members) :
    ∃ n e, pkg.enums.lookup n = some e ∧ e.name = b.name ∧ e.members = members := by
  rcases Schema.mem_blocks_cases hb with ⟨a, d, _, ha, rfl⟩ | ⟨w, _, rfl⟩
  · cases d with
    | message => cases hbody
    | interface name ids => cases ids <;> cases hbody
    | enum name members' =>
      obtain rfl := BlockBody.enum.inj hbody
      -- a definition that is no message of a method was made for a type
      obtain ⟨n, _, htitle⟩ := titled_of_compile h ha fun _ _ hd => by cases hd
      cases htitle with
      | enum _ he => exact ⟨n, _, he, rfl, rfl⟩
  · cases hbody

end Package

/-- **When an enum block is legal.**

For every manifest whose constants have different names, and every enum block of a schema that
compiles from it: the block has one line for each member, in their order, and the members are made
by the constants that are listed for the type of its name.  No ordinal is shared; the member of zero
comes first exactly if no constant of the type is negative; and no name is shared exactly if some
constant is zero or none is called `<Type>Internal` (but for one whose ordinal an earlier one has).
The block is legal exactly if both is the case. -/
theorem enum_legal_iff {m : Manifest} {pkg : Package} (h : m.build = .ok pkg)
    (hconstants : (m.constants.map (·.name)).Nodup) {o : CompileOptions} {schema : Schema}
    (hcompile : pkg.compile o = .ok schema) {b : Block} (hb : b ∈ schema.document.blocks)
    {members : List EnumMember} (hbody : b.body = .enum members) :
    Layout.bodyLines b.body = members.map Layout.memberLine ∧
    members = buildMembers b.name (m.literalsOf b.name) ∧
    (members.map (·.ordinal)).Nodup ∧
    ((members.map (·.ordinal)).head? = some 0 ↔
      Enumeration.NoneNegative (m.literalsOf b.name)) ∧
    ((members.map (·.name)).Nodup ↔
      Enumeration.ZeroNameFree b.name (m.literalsOf b.name)) ∧
    (Enumeration.Legal members ↔
      Enumeration.NoneNegative (m.literalsOf b.name) ∧
        Enumeration.ZeroNameFree b.name (m.literalsOf b.name)) := by
  obtain ⟨n, e, he, hname, rfl⟩ := Package.enum_of_compile hcompile hb hbody
  have hmembers : e.members = buildMembers b.name (m.literalsOf b.name) :=
    hname ▸ Manifest.members_of_lookup_enums h he
  have hordinals : (e.members.map (·.ordinal)).Nodup := hmembers ▸ buildMembers_nodup _ _
  -- each condition on the members is one on the constants
  have hzero : (e.members.map (·.ordinal)).head? = some 0 ↔
      Enumeration.NoneNegative (m.literalsOf b.name) := by
    rw [hmembers]
    exact Enumeration.zero_first_iff
  have hnames : (e.members.map (·.name)).Nodup ↔
      Enumeration.ZeroNameFree b.name (m.literalsOf b.name) := by
    rw [hmembers]
    exact Enumeration.nodup_names_iff (m.nodup_literalsOf hconstants b.name)
  refine ⟨by rw [hbody]; rfl, hmembers, hordinals, hzero, hnames, ?_⟩
  rw [← hzero, ← hnames]
  exact ⟨fun h => ⟨h.zero_first, h.names⟩, fun h => ⟨h.1, hordinals, h.2⟩⟩

/-! ## §4. Enum blocks that are not legal, and one that is. -/

/-- A negative mood, a tier with the name that is made up for zero, and hues. -/
def surveyManifest : Manifest where
  path := "example.com/survey"
  name := none
  types :=
    [⟨"Mood", .type "int", []⟩,
      ⟨"Tier", .type "int", []⟩,
      ⟨"Hue", .type "string", []⟩,
      ⟨"Survey", .struct [],
        [⟨"Rate",
          [⟨some "mood", "Mood"⟩, ⟨some "tier", "Tier"⟩, ⟨some "hue", "Hue"⟩], []⟩]⟩]
  constants :=
    [⟨"Mild", "Mood", "0"⟩, ⟨"Cold", "Mood", "-1"⟩, ⟨"TierInternal", "Tier", "3"⟩,
      ⟨"Blue", "Hue", "4"⟩, ⟨"Red", "Hue", "\"red\""⟩]

/-- The options under which `surveyManifest` is compiled. -/
def surveyOptions : CompileOptions where
  package := "example.com/survey"
  entrypoint := "Survey"
  excluded := []
  fieldless := []
  service := none
  protoPackage := none
  options := .empty
  sortMethods := false

/-- **A member before zero, and two members of one name.** -/
theorem survey_enums_illegal :
    (surveyManifest.constants.map (·.name)).Nodup ∧
    ∃ pkg schema, surveyManifest.build = .ok pkg ∧ pkg.compile surveyOptions = .ok schema ∧
      (∃ b ∈ schema.document.blocks,
        b.text = "enum Mood \x7b\n  Cold = -1;\n  Mild = 0;\n\x7d\n" ∧
        ∃ members, b.body = .enum members ∧ members.map (·.ordinal) = [-1, 0] ∧
          ¬ Enumeration.Legal members) ∧
      ∃ b ∈ schema.document.blocks,
        b.text = "enum Tier \x7b\n  TierInternal = 0;\n  TierInternal = 3;\n\x7d\n" ∧
        ∃ members, b.body = .enum members ∧
          members.map (·.name) = ["TierInternal", "TierInternal"] ∧
          ¬ Enumeration.Legal members := by
  have hcompile : ((surveyManifest.build.toOption.bind fun pkg =>
      (pkg.compile surveyOptions).toOption).any fun schema =>
        (schema.document.blocks.any fun b => decide
          (b.text = "enum Mood \x7b\n  Cold = -1;\n  Mild = 0;\n\x7d\n" ∧
            b.body = .enum [⟨"Cold", -1, none⟩, ⟨"Mild", 0, none⟩])) &&
        schema.document.blocks.any fun b => decide
          (b.text = "enum Tier \x7b\n  TierInternal = 0;\n  TierInternal = 3;\n\x7d\n" ∧
            b.body = .enum [⟨"TierInternal", 0, none⟩, ⟨"TierInternal", 3, none⟩])) = true := by
    decide +kernel
  obtain ⟨schema, hschema, hblocks⟩ := (Option.any_eq_true _ _).1 hcompile
  obtain ⟨pkg, hpkg, hok⟩ := Option.bind_eq_some_iff.1 hschema
  obtain ⟨hmood, htier⟩ := Bool.and_eq_true_iff.1 hblocks
  obtain ⟨mood, hmood, hmoodIs⟩ := List.any_eq_true.1 hmood
  obtain ⟨tier, htier, htierIs⟩ := List.any_eq_true.1 htier
  obtain ⟨hmoodText, hmoodBody⟩ := of_decide_eq_true hmoodIs
  obtain ⟨htierText, htierBody⟩ := of_decide_eq_true htierIs
  -- the first lacks zero in front, the second repeats a name
  refine ⟨by decide, pkg, schema, eq_ok_of_toOption hpkg, eq_ok_of_toOption hok, ?_, ?_⟩
  · exact ⟨mood, hmood, hmoodText, _, hmoodBody, rfl, fun h => absurd h.zero_first (by decide)⟩
  · exact ⟨tier, htier, htierText, _, htierBody, rfl, fun h => absurd h.names (by decide)⟩

/-- The hues of the survey are legal, so none of them is negative or has the name for zero. -/
theorem enum_legal_iff_survey :
    ∃ pkg schema b members, surveyManifest.build = .ok pkg ∧
      (surveyManifest.constants.map (·.name)).Nodup ∧ pkg.compile surveyOptions = .ok schema ∧
      b ∈ schema.document.blocks ∧ b.body = .enum members ∧
      members = [⟨"HueInternal", 0, none⟩, ⟨"Red", 1, some "\"red\""⟩, ⟨"Blue", 4, none⟩] ∧
      members = buildMembers b.name (surveyManifest.literalsOf b.name) ∧
      Enumeration.Legal members ∧
      Enumeration.NoneNegative (surveyManifest.literalsOf b.name) ∧
      Enumeration.ZeroNameFree b.name (surveyManifest.literalsOf b.name) := by
  have hcompile : ((surveyManifest.build.toOption.bind fun pkg =>
      (pkg.compile surveyOptions).toOption).any fun schema =>
        schema.document.blocks.any fun b => decide (b.body = .enum
          [⟨"HueInternal", 0, none⟩, ⟨"Red", 1, some "\"red\""⟩, ⟨"Blue", 4, none⟩])) = true := by
    decide +kernel
  obtain ⟨schema, hschema, hblocks⟩ := (Option.any_eq_true _ _).1 hcompile
  obtain ⟨pkg, hpkg, hok⟩ := Option.bind_eq_some_iff.1 hschema
  obtain ⟨b, hb, hhue⟩ := List.any_eq_true.1 hblocks
  have hbody := of_decide_eq_true hhue
  have hbuild := eq_ok_of_toOption hpkg
  have hschema := eq_ok_of_toOption hok
  have hnodup : (surveyManifest.constants.map (·.name)).Nodup := by decide
  obtain ⟨_, hmembers, hordinals, _, _, hlegal⟩ := enum_legal_iff hbuild hnodup hschema hb hbody
  -- the members are legal by themselves, so the constants meet the conditions
  have hlegal' : Enumeration.Legal _ := ⟨rfl, hordinals, by decide⟩
  exact ⟨pkg, schema, b, _, hbuild, hnodup, hschema, hb, hbody, rfl, hmembers, hlegal',
    hlegal.1 hlegal'⟩

end RpcSchema
